import MpRpc.Config
import MpRpc.Transport.SocketReader
import MpRpc.Transport.WriteQueue
import MpRpc.Transport.ZstdReading

/-!
# StreamCodec — a compressor and the parser at the other end

What a connection needs of a `streaming_compressor` and a `streaming_parser`. The
compressor may be given one more message at any time, and the parser is given the bytes
in pieces; `Position` says where the parser stands in the stream that has been written so
far: bytes of it are still to come, and messages of it are still to be handed over. The
laws are about single calls, for any allocator, so that they also hold while others fail.

The two codecs are those of `create_compressor_factory` and `create_parser_factory`.
-/

namespace MpRpc.Transport

open Msgpack (framer)

/-- A `streaming_compressor` and a `streaming_parser` for what it makes. -/
structure StreamCodec where
  Sender : Type
  Reader : Type
  /-- what a call of the parser depends on besides the parser -/
  Choice : Type
  compressor : StreamingCompressor Sender
  parser : StreamingParser Reader Choice
  /-- the parser after its construction -/
  start : Reader
  /-- the compressor is between two messages -/
  Ready : Sender → Prop
  /-- `unseen` is still to be received and `left` to be handed over -/
  Position : Reader → (unseen : Bytes) → (left : List MessageData) → Prop
  /-- there is room for so many bytes behind those received -/
  Room : Reader → Nat → Prop
  ready_init : Ready compressor.init
  ready_compress : ∀ {c data}, Ready c → framer.IsFrame data → Ready (compressor.compress c data).2
  position_start : Position start [] []
  position_compress : ∀ {c data p unseen left}, Ready c → framer.IsFrame data →
    Position p unseen left →
    Position p (unseen ++ (compressor.compress c data).1) (left ++ [data])
  position_prepareBuffer : ∀ {p q unseen left size choice}, Position p unseen left →
    parser.prepareBuffer p size choice = some q → Position q unseen left ∧ Room q size
  position_receive : ∀ {p bytes unseen left size}, Position p (bytes ++ unseen) left →
    Room p size → bytes.length ≤ size →
    Position (parser.consumed (parser.store p bytes) bytes.length) unseen left
  position_consumed_zero : ∀ {p unseen left}, Position p unseen left →
    Position (parser.consumed p 0) unseen left
  /-- `parse_next` throws no `mprpc::exception`, and with `get` it hands over the next
  message -/
  position_parseNext : ∀ {p numBytes unseen left} (choice : Choice),
    Position (parser.consumed p numBytes) unseen left → (∀ m ∈ left, framer.IsFrame m) →
    (parser.parseNext p numBytes choice).1 = none ∨
    (parser.parseNext p numBytes choice).1 = some (.ok false) ∧
      Position (parser.parseNext p numBytes choice).2 unseen left ∨
    (parser.parseNext p numBytes choice).1 = some (.ok true) ∧ ∃ m rest, left = m :: rest ∧
      (parser.get (parser.parseNext p numBytes choice).2 choice).1 = some (.ok m) ∧
      Position (parser.get (parser.parseNext p numBytes choice).2 choice).2 unseen rest

namespace StreamCodec

variable {K : StreamCodec}

theorem ready_compressAll {c : K.Sender} {messages : List MessageData} (h : K.Ready c)
    (hmessages : ∀ m ∈ messages, framer.IsFrame m) :
    K.Ready (K.compressor.compressAll c messages).2 := by
  induction messages generalizing c with
  | nil => exact h
  | cons m messages ih =>
    obtain ⟨hm, hrest⟩ := List.forall_mem_cons.mp hmessages
    exact ih (K.ready_compress h hm) hrest

/-- Messages are appended to the stream. -/
theorem position_compressAll {c : K.Sender} {messages : List MessageData} {p : K.Reader}
    {unseen : Bytes} {left : List MessageData} (hc : K.Ready c)
    (hmessages : ∀ m ∈ messages, framer.IsFrame m) (h : K.Position p unseen left) :
    K.Position p (unseen ++ (K.compressor.compressAll c messages).1) (left ++ messages) := by
  induction messages generalizing c unseen left with
  | nil => simpa [StreamingCompressor.compressAll] using h
  | cons m messages ih =>
    obtain ⟨hm, hrest⟩ := List.forall_mem_cons.mp hmessages
    have hnext := ih (K.ready_compress hc hm) hrest (K.position_compress hc hm h)
    simpa [StreamingCompressor.compressAll] using hnext

end StreamCodec

/-! ## Without compression -/

/-- The messages still to be handed over are a stream of frames. -/
theorem stream_of_isFrame {left : List MessageData} (h : ∀ m ∈ left, framer.IsFrame m) :
    framer.Stream left [] :=
  ⟨h, rfl⟩

namespace MsgpackStreamingParser

variable {p : MsgpackStreamingParser} {unseen : Bytes} {left : List MessageData}

/-- What is buffered and what is to come are the messages to be handed over. -/
structure Holds (p : MsgpackStreamingParser) (unseen : Bytes) (left : List MessageData) : Prop where
  wf : p.Wf
  stream : p.buffered ++ unseen = left.flatten

/-- **`parse_next` and `get` hand over the first message** if they hand over one. -/
theorem Holds.parseNext {numBytes : Nat} (h : (p.consumed numBytes).Holds unseen left)
    (hleft : ∀ m ∈ left, framer.IsFrame m) :
    (p.parseNext framer numBytes).1 = .ok false ∧
        (p.parseNext framer numBytes).2.Holds unseen left ∨
      (p.parseNext framer numBytes).1 = .ok true ∧ ∃ m rest, left = m :: rest ∧
        (p.parseNext framer numBytes).2.get.1 = m ∧
        (p.parseNext framer numBytes).2.get.2.Holds unseen rest := by
  have hstream := stream_of_isFrame hleft
  have hseen : (p.consumed numBytes).buffered ++ unseen = left.flatten ++ [] := by
    rw [List.append_nil, h.stream]
  cases hparse : framer.parse (p.consumed numBytes).buffered with
  | error => exact absurd hparse (hstream.parse_ne_error hseen)
  | incomplete =>
    left
    simp only [MsgpackStreamingParser.parseNext, hparse]
    exact ⟨trivial, h⟩
  | complete n =>
    right
    obtain ⟨m, rest, rfl, htake, hdrop⟩ := hstream.parse_complete hseen hparse
    have hle : n ≤ (p.consumed numBytes).consumedBufSize := by
      rw [← h.wf.length_buffered]
      exact framer.complete_le hparse
    have hwf : ({ p.consumed numBytes with parsedBufSize := n } : MsgpackStreamingParser).Wf :=
      ⟨h.wf.buffer, h.wf.consumed⟩
    obtain ⟨hmessage, hwf', hbuffered⟩ := get_spec hwf hle
    simp only [MsgpackStreamingParser.parseNext, hparse]
    refine ⟨trivial, m, rest, rfl, hmessage.trans htake, hwf', ?_⟩
    rw [hbuffered]
    exact hdrop.trans (List.append_nil _)

end MsgpackStreamingParser

/-- `null_streaming_compressor` and `msgpack_streaming_parser` -/
def plainCodec (fresh : Nat → UInt8) : StreamCodec where
  Sender := Unit
  Reader := MsgpackStreamingParser
  Choice := Allocation
  compressor := nullStreamingCompressor
  parser := MsgpackStreamingParser.streamingParser framer
  start := { buffer := .empty fresh }
  Ready _ := True
  Position := MsgpackStreamingParser.Holds
  Room p size := p.consumedBufSize + size ≤ p.buffer.size
  ready_init := trivial
  ready_compress _ _ := trivial
  position_start := ⟨⟨Nat.zero_le _, Nat.le_refl _⟩, rfl⟩
  position_compress := by
    intro c data p unseen left _ _ h
    refine ⟨h.wf, ?_⟩
    rw [← List.append_assoc, h.stream, List.flatten_append]
    simp [nullStreamingCompressor]
  position_prepareBuffer := by
    intro p q unseen left size choice h hq
    obtain ⟨hwf, hbuffered, hroom⟩ := MsgpackStreamingParser.prepareBuffer_spec h.wf hq
    exact ⟨⟨hwf, by rw [hbuffered, h.stream]⟩, Nat.le_of_eq hroom⟩
  position_receive := by
    intro p bytes unseen left size h hroom hle
    obtain ⟨hwf, hbuffered⟩ := MsgpackStreamingParser.received_spec h.wf bytes (by omega)
    refine ⟨hwf, ?_⟩
    show ((p.store bytes).consumed bytes.length).buffered ++ unseen = left.flatten
    rw [hbuffered, List.append_assoc]
    exact h.stream
  position_consumed_zero h := h
  position_parseNext := by
    intro p numBytes unseen left choice h hleft
    rcases h.parseNext hleft with ⟨hfalse, hholds⟩ | ⟨htrue, m, rest, hm, hget, hholds⟩
    · exact .inr (.inl ⟨congrArg some hfalse, hholds⟩)
    · exact .inr (.inr ⟨congrArg some htrue, m, rest, hm, by rw [← hget]; rfl, hholds⟩)

/-! ## With zstd -/

/-- `zstd_streaming_compressor` as a `streaming_compressor`. -/
def zstdStreamingCompressor (Z : Zstd) : StreamingCompressor Z.CCtx where
  init := ZstdStreamingCompressor.init Z
  compress c data :=
    match ZstdStreamingCompressor.compress Z c data with
    | .ok out => out
    -- not for a message that is not empty: `zstd_compress_spec`
    | .error _ => ([], c)

theorem zstd_compress_spec {Z : Zstd} {c : Z.CCtx} {data : MessageData} (hc : Z.Ready c)
    (hdata : framer.IsFrame data) :
    ∃ c' frame, ZstdStreamingCompressor.compress Z c data = .ok (frame, c') ∧
      (zstdStreamingCompressor Z).compress c data = (frame, c') ∧
      Z.decoder.IsFrame data frame ∧ Z.Ready c' := by
  obtain ⟨c', frame, hok, hframe, hready⟩ :=
    Z.compressStream2_spec hc (ZstdStreamingParser.msgpack_ne_nil hdata)
  have hcompress : ZstdStreamingCompressor.compress Z c data = .ok (frame, c') := by
    simp only [ZstdStreamingCompressor.compress, hok]
  exact ⟨c', frame, hcompress, by simp only [zstdStreamingCompressor, hcompress], hframe, hready⟩

namespace ZstdStreamingParser

variable {Z : Zstd} {p q : ZstdStreamingParser Z} {unseen : Bytes} {left : List MessageData}

/-- `zstd_streaming_parser` as a `streaming_parser`. A call depends on the allocator, and
here also on the number of rounds that its loop may take; when these are used up the
result is the same as that of an exception. -/
def streamingParser (Z : Zstd) : StreamingParser (ZstdStreamingParser Z) (Allocation × Nat) where
  prepareBuffer p size choice := p.prepareBuffer size choice.1
  store := store
  consumed := consumed
  parseNext p numBytes choice :=
    match p.parseNext framer choice.1 choice.2 numBytes with
    | none => (none, p)
    | some (result, q) => (some result, q)
  get p _ := (some (.ok p.get.1), p.get.2)

/-- The messages to be handed over are decompressed, or will be decompressed from what is
read and what is to come. -/
structure Holds (p : ZstdStreamingParser Z) (unseen : Bytes) (left : List MessageData) : Prop where
  wf : p.Wf
  stream : ∃ part contents, Z.decoder.Ahead p.context part (p.unread ++ unseen) contents ∧
    p.msgpackParser.buffered ++ contents.flatten.drop part.length = left.flatten

theorem holds_make (fresh : Nat → UInt8) : (make Z fresh).Holds [] [] :=
  ⟨wf_make fresh, [], [], .boundary Z.boundary_createDCtx .nil, rfl⟩

/-- **A frame is appended** to the stream. -/
theorem Holds.append (h : p.Holds unseen left) {data frame : Bytes}
    (hframe : Z.decoder.IsFrame data frame) : p.Holds (unseen ++ frame) (left ++ [data]) := by
  obtain ⟨part, contents, hahead, hstream⟩ := h.stream
  refine ⟨h.wf, part, contents ++ [data], ?_, ?_⟩
  · rw [← List.append_assoc]
    exact hahead.append hframe
  · rw [List.flatten_append, List.drop_append_of_le_length hahead.length_part_le,
      ← List.append_assoc, hstream, List.flatten_append]

/-- `prepare_buffer` keeps what was read. -/
theorem Wf.prepareBuffer {size : Nat} {allocation : Allocation} (h : p.Wf)
    (hq : p.prepareBuffer size allocation = some q) :
    q.Wf ∧ q.unread = p.unread ∧ q.context = p.context ∧ q.msgpackParser = p.msgpackParser ∧
      q.inputSize + size ≤ q.buffer.size := by
  obtain ⟨buffer, hbuffer, rfl⟩ := Option.map_eq_some_iff.mp hq
  obtain ⟨hsize, hwf, hkeep⟩ := Buffer.resize_spec hbuffer
  have hcap : p.inputSize ≤ p.buffer.capacity := Nat.le_trans h.size h.buffer
  refine ⟨⟨hwf, ?_, ?_, h.pos, h.msgpack, h.msgpackCapacity⟩, ?_, rfl, rfl, Nat.le_of_eq hsize.symm⟩
  · exact Nat.lt_of_lt_of_le h.capacity (Buffer.capacity_le_resize hbuffer)
  · show p.inputSize ≤ buffer.size
    omega
  · show (buffer.data.take p.inputSize).drop p.inputPos = _
    rw [hkeep _ (by omega) hcap, unread]

/-- Received bytes are the last of the input. -/
theorem Wf.store {bytes : Bytes} {size : Nat} (h : p.Wf)
    (hroom : p.inputSize + size ≤ p.buffer.size) (hle : bytes.length ≤ size) :
    ((p.store bytes).consumed bytes.length).Wf ∧
      ((p.store bytes).consumed bytes.length).unread = p.unread ++ bytes := by
  have hcap : p.inputSize ≤ p.buffer.capacity := Nat.le_trans h.size h.buffer
  have hpos := h.pos
  refine ⟨⟨Buffer.wf_store h.buffer _ _, ?_, ?_, ?_, h.msgpack, h.msgpackCapacity⟩, ?_⟩
  · exact Nat.lt_of_lt_of_le h.capacity (Buffer.capacity_le_store _ _ _)
  · show p.inputSize + bytes.length ≤ p.buffer.size
    omega
  · show p.inputPos ≤ p.inputSize + bytes.length
    omega
  · show ((p.buffer.store p.inputSize bytes).data.take (p.inputSize + bytes.length)).drop
      p.inputPos = _
    rw [Buffer.take_store hcap, List.drop_append_of_le_length, unread]
    rw [List.length_take]
    exact Nat.le_min.mpr ⟨hpos, Nat.le_trans hpos hcap⟩

theorem Holds.prepareBuffer {size : Nat} {allocation : Allocation} (h : p.Holds unseen left)
    (hq : p.prepareBuffer size allocation = some q) : q.Holds unseen left := by
  obtain ⟨hwf, hunread, hcontext, hmsgpack, -⟩ := h.wf.prepareBuffer hq
  refine ⟨hwf, ?_⟩
  rw [hunread, hcontext, hmsgpack]
  exact h.stream

theorem Holds.receive {bytes : Bytes} {size : Nat} (h : p.Holds (bytes ++ unseen) left)
    (hroom : p.inputSize + size ≤ p.buffer.size) (hle : bytes.length ≤ size) :
    ((p.store bytes).consumed bytes.length).Holds unseen left := by
  obtain ⟨hwf, hunread⟩ := h.wf.store hroom hle
  obtain ⟨part, contents, hahead, hstream⟩ := h.stream
  refine ⟨hwf, part, contents, ?_, hstream⟩
  rw [hunread, List.append_assoc]
  exact hahead

/-- **One round of the loop** moves bytes from the input to the inner parser. -/
theorem Holds.round (h : p.Holds unseen left) (hlt : p.inputPos < p.inputSize)
    {msgpackParser : MsgpackStreamingParser} {allocation : Allocation}
    (hprepare : p.msgpackParser.prepareBuffer Z.dStreamOutSize allocation = some msgpackParser)
    {call : Decoded Z.decoder.Context UInt8}
    (hcall : call = Z.decoder.decode p.context p.unread Z.dStreamOutSize) :
    call.error = none ∧ (p.afterCall msgpackParser call).Holds unseen left := by
  obtain ⟨part, contents, hahead, hstream⟩ := h.stream
  obtain ⟨herror, hwf, -, hbuffered, hmove⟩ := h.wf.round hahead hlt hprepare hcall
  refine ⟨herror, hwf, ?_⟩
  rw [hbuffered]
  rcases hmove with ⟨hnext, -⟩ | ⟨later, rfl, hnext⟩
  · refine ⟨part ++ call.output, contents, hnext, ?_⟩
    -- the output is the next of the contents
    obtain ⟨more, hmore⟩ := hnext.part_prefix
    rw [← hmore, List.append_assoc part, List.drop_left] at hstream
    rw [← hmore, List.drop_left, ← hstream, List.append_assoc]
  · refine ⟨[], later, hnext, ?_⟩
    rw [List.flatten_cons, List.append_assoc part, List.drop_left] at hstream
    rw [List.length_nil, List.drop_zero, List.append_assoc, hstream]

/-- **The loop throws nothing**, wherever it stops. -/
theorem Holds.decompress (h : p.Holds unseen left) {allocation : Allocation} {fuel : Nat}
    {thrown : Option ErrorInfo}
    (hs : ZstdStreamingParser.decompress allocation fuel p = some (thrown, q)) :
    thrown = none ∧ q.Holds unseen left := by
  induction fuel generalizing p with
  | zero => cases hs
  | succ fuel ih =>
    rw [ZstdStreamingParser.decompress] at hs
    by_cases hlt : p.inputPos < p.inputSize
    · simp only [if_pos hlt] at hs
      split at hs
      · cases hs
      · rename_i msgpackParser hprepare
        obtain ⟨herror, hnext⟩ := h.round hlt hprepare rfl
        simp only [herror] at hs
        split at hs
        · cases hs
          exact ⟨rfl, hnext⟩
        · exact ih hnext hs
    · rw [if_neg hlt] at hs
      cases hs
      exact ⟨rfl, h⟩

theorem Holds.takeRead (h : p.Holds unseen left) : p.takeRead.Holds unseen left := by
  obtain ⟨hwf, hunread⟩ := h.wf.takeRead
  refine ⟨hwf, ?_⟩
  rw [hunread]
  exact h.stream

theorem buffer_parseNext (p : MsgpackStreamingParser) (numBytes : Nat) :
    (p.parseNext framer numBytes).2.buffer = p.buffer := by
  simp only [MsgpackStreamingParser.parseNext]
  split <;> rfl

/-- **`parse_next` and `get` hand over the first message** if they hand over one; the inner
parser works on the beginning of the messages. -/
theorem Holds.parseNext {numBytes : Nat} {allocation : Allocation} {fuel : Nat}
    {result : Except ErrorInfo Bool} (h : (p.consumed numBytes).Holds unseen left)
    (hleft : ∀ m ∈ left, framer.IsFrame m)
    (hs : p.parseNext framer allocation fuel numBytes = some (result, q)) :
    result = .ok false ∧ q.Holds unseen left ∨
      result = .ok true ∧ ∃ m rest, left = m :: rest ∧ q.get.1 = m ∧
        q.get.2.Holds unseen rest := by
  unfold ZstdStreamingParser.parseNext at hs
  cases hloop : ZstdStreamingParser.decompress allocation fuel (p.consumed numBytes) with
  | none =>
    rw [hloop] at hs
    cases hs
  | some out =>
    obtain ⟨thrown, u⟩ := out
    obtain ⟨rfl, hu⟩ := h.decompress hloop
    have hu := hu.takeRead
    obtain ⟨part, contents, hahead, hstream⟩ := hu.stream
    rw [hloop] at hs
    obtain ⟨rfl, rfl⟩ := Prod.mk.inj (Option.some.inj hs)
    have hinner : (u.takeRead.msgpackParser.consumed 0).Holds
        (contents.flatten.drop part.length) left := ⟨hu.wf.msgpack, hstream⟩
    have hbuffer := buffer_parseNext u.takeRead.msgpackParser 0
    have hwf := hu.wf
    rcases hinner.parseNext hleft with ⟨hfalse, hm⟩ | ⟨htrue, m, rest, hm, hget, hrest⟩
    · refine .inl ⟨hfalse, ⟨hwf.buffer, hwf.capacity, hwf.size, hwf.pos, hm.wf, ?_⟩, part,
        contents, hahead, hm.stream⟩
      rw [hbuffer]
      exact hwf.msgpackCapacity
    · refine .inr ⟨htrue, m, rest, hm, hget, ⟨hwf.buffer, hwf.capacity, hwf.size, hwf.pos,
        hrest.wf, ?_⟩, part, contents, hahead, hrest.stream⟩
      show 0 < ((u.takeRead.msgpackParser.parseNext framer 0).2.buffer.consume _).capacity
      rw [hbuffer, Buffer.capacity_consume hwf.msgpack.buffer]
      exact hwf.msgpackCapacity

/-! ### With late output -/

/-- `Holds`, and with late output the frames to come are the messages to come. -/
structure Tracks (p : ZstdStreamingParser Z) (unseen : Bytes) (left : List MessageData) : Prop where
  holds : p.Holds unseen left
  decoding : Z.decoder.LateOutput → ∃ done part contents,
    p.Decoding unseen done part contents ∧ left = done ++ contents

theorem tracks_make (fresh : Nat → UInt8) : (make Z fresh).Tracks [] [] :=
  ⟨holds_make fresh, fun _ =>
    ⟨[], [], [], ⟨wf_make fresh, rfl, .boundary Z.boundary_createDCtx .nil⟩, rfl⟩⟩

theorem Tracks.append (h : p.Tracks unseen left) {data frame : Bytes}
    (hframe : Z.decoder.IsFrame data frame) : p.Tracks (unseen ++ frame) (left ++ [data]) := by
  refine ⟨h.holds.append hframe, ?_⟩
  intro hlate
  obtain ⟨done, part, contents, hdecoding, rfl⟩ := h.decoding hlate
  refine ⟨done, part, contents ++ [data], ⟨hdecoding.wf, hdecoding.buffered, ?_⟩,
    List.append_assoc _ _ _⟩
  rw [← List.append_assoc]
  exact hdecoding.ahead.append hframe

theorem Tracks.prepareBuffer {size : Nat} {allocation : Allocation} (h : p.Tracks unseen left)
    (hq : p.prepareBuffer size allocation = some q) :
    q.Tracks unseen left ∧ q.inputSize + size ≤ q.buffer.size := by
  obtain ⟨hwf, hunread, hcontext, hmsgpack, hroom⟩ := h.holds.wf.prepareBuffer hq
  refine ⟨⟨h.holds.prepareBuffer hq, ?_⟩, hroom⟩
  intro hlate
  obtain ⟨done, part, contents, hdecoding, hleft⟩ := h.decoding hlate
  refine ⟨done, part, contents, ⟨hwf, ?_, ?_⟩, hleft⟩
  · rw [hmsgpack, hdecoding.buffered]
  · rw [hunread, hcontext]
    exact hdecoding.ahead

theorem Tracks.receive {bytes : Bytes} {size : Nat} (h : p.Tracks (bytes ++ unseen) left)
    (hroom : p.inputSize + size ≤ p.buffer.size) (hle : bytes.length ≤ size) :
    ((p.store bytes).consumed bytes.length).Tracks unseen left := by
  obtain ⟨hwf, hunread⟩ := h.holds.wf.store hroom hle
  refine ⟨h.holds.receive hroom hle, ?_⟩
  intro hlate
  obtain ⟨done, part, contents, hdecoding, hleft⟩ := h.decoding hlate
  refine ⟨done, part, contents, ⟨hwf, hdecoding.buffered, ?_⟩, hleft⟩
  rw [hunread, List.append_assoc]
  exact hdecoding.ahead

/-- **The loop, wherever it stops**: the input is used up, or a message is decompressed. -/
theorem Decoding.of_decompress {done : List Bytes} {part : Bytes} {contents : List Bytes}
    (h : p.Decoding unseen done part contents) {allocation : Allocation} {fuel : Nat}
    {thrown : Option ErrorInfo}
    (hs : ZstdStreamingParser.decompress allocation fuel p = some (thrown, q)) :
    thrown = none ∧ ∃ done' part' contents', q.Decoding unseen done' part' contents' ∧
      done ++ contents = done' ++ contents' ∧ (q.inputPos = q.inputSize ∨ done' ≠ []) := by
  induction fuel generalizing p done part contents with
  | zero => cases hs
  | succ fuel ih =>
    rw [ZstdStreamingParser.decompress] at hs
    by_cases hlt : p.inputPos < p.inputSize
    · simp only [if_pos hlt] at hs
      split at hs
      · cases hs
      · rename_i msgpackParser hprepare
        obtain ⟨herror, done', part', contents', hnext, hsame, -, hreturn⟩ :=
          h.call hlt hprepare rfl
        simp only [herror] at hs
        split at hs
        · rename_i hend
          cases hs
          refine ⟨rfl, done', part', contents', hnext, hsame, ?_⟩
          rcases hreturn with hall | hfull | hdone
          · exact .inl hall
          · -- a full output alone does not end the loop
            rcases hend with hall | hshort
            · exact .inl hall
            · omega
          · exact .inr hdone
        · obtain ⟨hnone, done'', part'', contents'', hq, hsame', hend⟩ := ih hnext hs
          exact ⟨hnone, done'', part'', contents'', hq, hsame.trans hsame', hend⟩
    · rw [if_neg hlt] at hs
      cases hs
      refine ⟨rfl, done, part, contents, h, rfl, .inl ?_⟩
      have hpos := h.wf.pos
      omega

/-- **`parse_next` for any allocator**: with late output it finds the first message to come,
or the input is used up. -/
theorem Decoding.of_parseNext {numBytes : Nat} {allocation : Allocation} {fuel : Nat}
    {done : List Bytes} {part : Bytes} {contents : List Bytes} {result : Except ErrorInfo Bool}
    (h : (p.consumed numBytes).Decoding unseen done part contents)
    (hlate : Z.decoder.LateOutput) (hframes : ∀ m ∈ done ++ contents, framer.IsFrame m)
    (hs : p.parseNext framer allocation fuel numBytes = some (result, q)) :
    Parsed unseen (done ++ contents) result q := by
  unfold ZstdStreamingParser.parseNext at hs
  cases hloop : ZstdStreamingParser.decompress allocation fuel (p.consumed numBytes) with
  | none =>
    rw [hloop] at hs
    cases hs
  | some out =>
    obtain ⟨thrown, u⟩ := out
    obtain ⟨rfl, done', part', contents', hu, hsame, hend⟩ := h.of_decompress hloop
    rw [hsame] at hframes ⊢
    have htaken := hu.takeRead
    have hparse := Decoding.parse (F := framer) htaken hlate rfl hframes
    rw [hloop] at hs
    obtain ⟨rfl, rfl⟩ := Prod.mk.inj (Option.some.inj hs)
    cases done' with
    | cons m done' =>
      rw [MsgpackStreamingParser.parseNext_of_complete hparse]
      have hwf := htaken.wf
      exact .found ⟨⟨hwf.buffer, hwf.capacity, hwf.size, hwf.pos,
        ⟨hwf.msgpack.buffer, hwf.msgpack.consumed⟩, hwf.msgpackCapacity⟩, htaken.buffered,
        htaken.ahead⟩ rfl rfl
    | nil =>
      rw [MsgpackStreamingParser.parseNext_of_incomplete hparse]
      refine .more htaken ?_
      rcases hend with hall | hdone
      · show u.inputSize - u.inputPos = 0
        omega
      · exact absurd rfl hdone

theorem Tracks.parseNext {numBytes : Nat} {allocation : Allocation} {fuel : Nat}
    {result : Except ErrorInfo Bool} (h : (p.consumed numBytes).Tracks unseen left)
    (hleft : ∀ m ∈ left, framer.IsFrame m)
    (hs : p.parseNext framer allocation fuel numBytes = some (result, q)) :
    result = .ok false ∧ q.Tracks unseen left ∨
      result = .ok true ∧ ∃ m rest, left = m :: rest ∧ q.get.1 = m ∧
        q.get.2.Tracks unseen rest := by
  have hparsed : Z.decoder.LateOutput → Parsed unseen left result q := by
    intro hlate
    obtain ⟨done, part, contents, hdecoding, rfl⟩ := h.decoding hlate
    exact hdecoding.of_parseNext hlate hleft hs
  rcases h.holds.parseNext hleft hs with ⟨rfl, hq⟩ | ⟨rfl, m, rest, rfl, hget, hq⟩
  · refine .inl ⟨rfl, hq, ?_⟩
    intro hlate
    cases hparsed hlate with
    | more hdecoding => exact ⟨[], _, _, hdecoding, rfl⟩
  · refine .inr ⟨rfl, m, rest, rfl, hget, hq, ?_⟩
    intro hlate
    cases hparsed hlate with
    | found hdecoding hrest hlength =>
      cases hrest
      exact ⟨_, _, _, (hdecoding.get hlength).2, rfl⟩

/-- **Nothing is kept back**: with late output, `parse_next` returns `false` at the end of
the stream only if every message has been handed over. -/
theorem Tracks.starved {numBytes : Nat} {allocation : Allocation} {fuel : Nat}
    (h : (p.consumed numBytes).Tracks [] left) (hleft : ∀ m ∈ left, framer.IsFrame m)
    (hlate : Z.decoder.LateOutput)
    (hs : p.parseNext framer allocation fuel numBytes = some (.ok false, q)) : left = [] := by
  obtain ⟨done, part, contents, hdecoding, rfl⟩ := h.decoding hlate
  cases hdecoding.of_parseNext hlate hleft hs with
  | @more part' _ hq hempty =>
    have hnil : q.unread = [] := by simp [unread, hempty]
    have hahead := hq.ahead
    rw [hnil] at hahead
    exact hahead.eq_nil.2

end ZstdStreamingParser

/-- `zstd_streaming_compressor` and `zstd_streaming_parser` -/
def zstdCodec (Z : Zstd) (fresh : Nat → UInt8) : StreamCodec where
  Sender := Z.CCtx
  Reader := ZstdStreamingParser Z
  Choice := Allocation × Nat
  compressor := zstdStreamingCompressor Z
  parser := ZstdStreamingParser.streamingParser Z
  start := .make Z fresh
  Ready := Z.Ready
  Position := ZstdStreamingParser.Tracks
  Room p size := p.inputSize + size ≤ p.buffer.size
  ready_init := Z.ready_reset Z.createCCtx
  ready_compress := by
    intro c data hc hdata
    obtain ⟨c', frame, -, hcompress, -, hready⟩ := zstd_compress_spec hc hdata
    rw [hcompress]
    exact hready
  position_start := ZstdStreamingParser.tracks_make fresh
  position_compress := by
    intro c data p unseen left hc hdata h
    obtain ⟨c', frame, -, hcompress, hframe, -⟩ := zstd_compress_spec hc hdata
    rw [hcompress]
    exact h.append hframe
  position_prepareBuffer h hq := h.prepareBuffer hq
  position_receive h hroom hle := h.receive hroom hle
  position_consumed_zero h := h
  position_parseNext := by
    intro p numBytes unseen left choice h hleft
    simp only [ZstdStreamingParser.streamingParser]
    cases hs : p.parseNext framer choice.1 choice.2 numBytes with
    | none => exact .inl rfl
    | some out =>
      obtain ⟨result, q⟩ := out
      rcases h.parseNext hleft hs with ⟨rfl, hq⟩ | ⟨rfl, m, rest, hm, hget, hq⟩
      · exact .inr (.inl ⟨rfl, hq⟩)
      · exact .inr (.inr ⟨rfl, m, rest, hm, by rw [hget], hq⟩)

/-! ## Nothing is kept back -/

/-- A message makes bytes, and the parser that has been given all bytes of the stream asks
for more only if it has handed over all messages. -/
structure StreamCodec.Thorough (K : StreamCodec) : Prop where
  compress_ne_nil : ∀ {c data}, K.Ready c → framer.IsFrame data →
    (K.compressor.compress c data).1 ≠ []
  starved : ∀ {p numBytes left choice}, K.Position (K.parser.consumed p numBytes) [] left →
    (∀ m ∈ left, framer.IsFrame m) → (K.parser.parseNext p numBytes choice).1 = some (.ok false) →
    left = []

theorem thorough_plainCodec (fresh : Nat → UInt8) : (plainCodec fresh).Thorough where
  compress_ne_nil _ hdata := ZstdStreamingParser.msgpack_ne_nil hdata
  starved := by
    intro p numBytes left choice h hleft hfalse
    cases left with
    | nil => rfl
    | cons m rest =>
      -- the first message is complete in the buffer
      have hbuffered :
          (MsgpackStreamingParser.consumed p numBytes).buffered = m ++ rest.flatten := by
        have hstream := h.stream
        rwa [List.append_nil, List.flatten_cons] at hstream
      have hparse : framer.parse (MsgpackStreamingParser.consumed p numBytes).buffered =
          .complete m.length := by
        rw [hbuffered]
        exact framer.complete_append (hleft m List.mem_cons_self) _
      have htrue : (MsgpackStreamingParser.parseNext framer p numBytes).1 = .ok true := by
        simp only [MsgpackStreamingParser.parseNext, hparse]
      have hsome : some (MsgpackStreamingParser.parseNext framer p numBytes).1 =
          some (.ok false) := hfalse
      rw [htrue] at hsome
      cases hsome

theorem thorough_zstdCodec {Z : Zstd} (hlate : Z.decoder.LateOutput) (fresh : Nat → UInt8) :
    (zstdCodec Z fresh).Thorough where
  compress_ne_nil := by
    intro c data hc hdata
    obtain ⟨c', frame, -, hcompress, hframe, -⟩ := zstd_compress_spec hc hdata
    have hfirst : ((zstdCodec Z fresh).compressor.compress c data).1 = frame :=
      congrArg Prod.fst hcompress
    rw [hfirst]
    exact FrameDecoder.frame_ne_nil Z.boundary_createDCtx hframe
  starved := by
    intro p numBytes left choice h hleft hfalse
    simp only [zstdCodec, ZstdStreamingParser.streamingParser] at hfalse
    cases hs : ZstdStreamingParser.parseNext framer choice.1 choice.2 p numBytes with
    | none =>
      rw [hs] at hfalse
      cases hfalse
    | some out =>
      obtain ⟨result, q⟩ := out
      rw [hs] at hfalse
      cases hfalse
      exact h.starved hleft hlate hs

/-! ## The factories -/

/-- What `create_compressor_factory` and `create_parser_factory` give for one `type` of a
`compression_config`, as the two ends of a stream. -/
def streamCodec (Z : Zstd) (fresh : Nat → UInt8) : Config.CompressionType → StreamCodec
  | .none => plainCodec fresh
  | .zstd => zstdCodec Z fresh

theorem thorough_streamCodec {Z : Zstd} (fresh : Nat → UInt8) {type : Config.CompressionType}
    (hlate : type = .zstd → Z.decoder.LateOutput) : (streamCodec Z fresh type).Thorough := by
  cases type with
  | none => exact thorough_plainCodec fresh
  | zstd => exact thorough_zstdCodec (hlate rfl) fresh

end MpRpc.Transport
