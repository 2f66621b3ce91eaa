import Mathlib
import MpRpc.Msgpack.Parse
import MpRpc.Transport.StoredFrames
import MpRpc.Transport.Zstd

/-!
# ZstdReading — messages out of a compressed stream

The parser holds three pieces of the stream of messages: messages that are
decompressed and not handed over (`done`), the `part` of the next one that is
decompressed, and the bytes from which the rest will be decompressed. `Decoding`
relates them to the messages that are still to be handed over, whatever the chunks
are. A round of the loop of `parse_next` moves bytes from the third piece to the
first two.

The loop ends when the input is used up, and also after a call that did not fill
its output. Such a call has ended a frame; so there is a message to hand over,
provided that the end of a frame brings output.
-/

namespace MpRpc.Transport

namespace ZstdStreamingParser

variable {Z : Zstd} {p : ZstdStreamingParser Z} {unseen : Bytes} {done contents : List Bytes}
  {part : Bytes}

/-- Where the parser stands in the stream of messages. -/
structure Decoding (p : ZstdStreamingParser Z) (unseen : Bytes) (done : List Bytes)
    (part : Bytes) (contents : List Bytes) : Prop where
  wf : p.Wf
  buffered : p.msgpackParser.buffered = done.flatten ++ part
  ahead : Z.decoder.Ahead p.context part (p.unread ++ unseen) contents

/-! ## The loop -/

theorem Wf.unread_ne_nil (h : p.Wf) (hlt : p.inputPos < p.inputSize) : p.unread ≠ [] := by
  intro hnil
  have hlength := h.length_unread
  rw [hnil, List.length_nil] at hlength
  omega

/-- Where the decoder stands in the stream after one round of the loop. -/
theorem Wf.round (h : p.Wf) (hahead : Z.decoder.Ahead p.context part (p.unread ++ unseen) contents)
    (hlt : p.inputPos < p.inputSize) {msgpackParser : MsgpackStreamingParser}
    {allocation : Allocation}
    (hprepare : p.msgpackParser.prepareBuffer Z.dStreamOutSize allocation = some msgpackParser)
    {call : Decoded Z.decoder.Context UInt8}
    (hcall : call = Z.decoder.decode p.context p.unread Z.dStreamOutSize) :
    call.error = none ∧ (p.afterCall msgpackParser call).Wf ∧
      (p.afterCall msgpackParser call).unread = p.unread.drop call.consumed ∧
      (p.afterCall msgpackParser call).msgpackParser.buffered =
        p.msgpackParser.buffered ++ call.output ∧
      (Z.decoder.Ahead call.context (part ++ call.output)
          ((p.afterCall msgpackParser call).unread ++ unseen) contents ∧
          (p.inputPos + call.consumed = p.inputSize ∨ call.output.length = Z.dStreamOutSize) ∨
        ∃ later, contents = (part ++ call.output) :: later ∧
          Z.decoder.Ahead call.context [] ((p.afterCall msgpackParser call).unread ++ unseen)
            later) := by
  have hlength := h.length_unread
  obtain ⟨herror, hconsumed, houtput, hmove⟩ :=
    hahead.decode rfl (h.unread_ne_nil hlt) Z.dStreamOutSize_pos hcall
  obtain ⟨hwf, hunread, hbuffered⟩ := h.afterCall hprepare hconsumed houtput
  rw [List.drop_append_of_le_length hconsumed, ← hunread] at hmove
  refine ⟨herror, hwf, hunread, hbuffered, ?_⟩
  rcases hmove with ⟨hnext, hreturn⟩ | hend
  · refine .inl ⟨hnext, ?_⟩
    rcases hreturn with hall | hfull
    · exact .inl (by omega)
    · exact .inr hfull
  · exact .inr hend

/-- With an allocator that serves every request the room for a round is there. -/
theorem Wf.exists_prepare (h : p.Wf) (fresh : Nat → UInt8) :
    ∃ msgpackParser,
      p.msgpackParser.prepareBuffer Z.dStreamOutSize (some fresh) = some msgpackParser := by
  obtain ⟨buffer, hbuffer⟩ :=
    Buffer.exists_resize h.msgpackCapacity (p.msgpackParser.consumedBufSize + Z.dStreamOutSize)
      fresh
  refine ⟨{ p.msgpackParser with buffer }, ?_⟩
  rw [MsgpackStreamingParser.prepareBuffer, hbuffer]
  rfl

/-- **One round of the loop**: no error, the messages stay the same, and if the input
is not used up and the output not full, a message has been decompressed. -/
theorem Decoding.call (h : p.Decoding unseen done part contents)
    (hlt : p.inputPos < p.inputSize) {msgpackParser : MsgpackStreamingParser}
    {allocation : Allocation}
    (hprepare : p.msgpackParser.prepareBuffer Z.dStreamOutSize allocation = some msgpackParser)
    {call : Decoded Z.decoder.Context UInt8}
    (hcall : call = Z.decoder.decode p.context p.unread Z.dStreamOutSize) :
    call.error = none ∧ ∃ done' part' contents',
      (p.afterCall msgpackParser call).Decoding unseen done' part' contents' ∧
      done ++ contents = done' ++ contents' ∧
      contents'.flatten.length + part.length + call.output.length =
        contents.flatten.length + part'.length ∧
      (p.inputPos + call.consumed = p.inputSize ∨ call.output.length = Z.dStreamOutSize ∨
        done' ≠ []) := by
  obtain ⟨herror, hround⟩ := h.wf.round h.ahead hlt hprepare hcall
  obtain ⟨hwf, -, hbuffered, hmove⟩ := hround
  rw [h.buffered] at hbuffered
  refine ⟨herror, ?_⟩
  rcases hmove with ⟨hahead, hreturn⟩ | ⟨later, rfl, hahead⟩
  · refine ⟨done, part ++ call.output, contents,
      ⟨hwf, hbuffered.trans (List.append_assoc _ _ _), hahead⟩, rfl, ?_, ?_⟩
    · rw [List.length_append]
      omega
    · rcases hreturn with hall | hfull
      · exact .inl hall
      · exact .inr (.inl hfull)
  · refine ⟨done ++ [part ++ call.output], [], later, ⟨hwf, ?_, hahead⟩, by simp, ?_,
      .inr (.inr (by simp))⟩
    · rw [hbuffered]
      simp
    · simp only [List.flatten_cons, List.length_append, List.length_nil]
      omega

/-- **The loop ends** with the input used up or a message decompressed. -/
theorem Decoding.decompress (h : p.Decoding unseen done part contents) (fresh : Nat → UInt8)
    {fuel : Nat} (hfuel : contents.flatten.length < fuel + part.length) :
    ∃ q done' part' contents', ZstdStreamingParser.decompress (some fresh) fuel p = some (none, q) ∧
      q.Decoding unseen done' part' contents' ∧ done ++ contents = done' ++ contents' ∧
      (q.inputPos = q.inputSize ∨ done' ≠ []) := by
  -- the fuel bounds the bytes still to be decompressed: a round that is not the last
  -- has filled its output
  induction fuel generalizing p done part contents with
  | zero =>
    have hpart := h.ahead.length_part_le
    omega
  | succ fuel ih =>
    rw [ZstdStreamingParser.decompress]
    by_cases hlt : p.inputPos < p.inputSize
    · obtain ⟨msgpackParser, hprepare⟩ := h.wf.exists_prepare fresh
      obtain ⟨herror, done', part', contents', hnext, hsame, hmeasure, hreturn⟩ :=
        h.call hlt hprepare rfl
      simp only [if_pos hlt, hprepare, herror]
      split
      · rename_i hend
        refine ⟨_, done', part', contents', rfl, hnext, hsame, ?_⟩
        rcases hreturn with hall | hfull | hdone
        · exact .inl hall
        · -- a full output alone does not end the loop
          rcases hend with hall | hshort
          · exact .inl hall
          · omega
        · exact .inr hdone
      · rename_i hgoes
        have hpos := Z.dStreamOutSize_pos
        obtain ⟨q, done'', part'', contents'', hloop, hq, hsame', hend⟩ :=
          ih hnext (by omega)
        exact ⟨q, done'', part'', contents'', hloop, hq, hsame.trans hsame', hend⟩
    · refine ⟨p, done, part, contents, if_neg hlt, h, rfl, .inl ?_⟩
      have hpos := h.wf.pos
      omega

/-! ## `parse_next` and `get` -/

theorem Decoding.takeRead (h : p.Decoding unseen done part contents) :
    p.takeRead.Decoding unseen done part contents := by
  obtain ⟨hwf, hunread⟩ := h.wf.takeRead
  refine ⟨hwf, h.buffered, ?_⟩
  rw [hunread]
  exact h.ahead

/-- What the inner parser finds: a message that is decompressed, if there is one. -/
theorem Decoding.parse {F : Framer UInt8} (h : p.Decoding unseen done part contents)
    (hlate : Z.decoder.LateOutput) (hempty : F.Unfinished [])
    (hframes : ∀ m ∈ done ++ contents, F.IsFrame m) :
    F.parse p.msgpackParser.buffered =
      match done with
      | [] => .incomplete
      | m :: _ => .complete m.length := by
  rw [h.buffered]
  cases done with
  | cons m done =>
    rw [List.flatten_cons, List.append_assoc]
    exact F.complete_append (hframes m (by simp)) _
  | nil =>
    -- only the beginning of a message: late output keeps it unfinished
    show F.parse part = .incomplete
    rcases h.ahead.part_cases hlate with rfl | ⟨out, later, hout, rfl⟩
    · exact hempty
    · exact (hframes (part ++ out) (by simp)).unfinished hout

/-- What `parse_next` leads to when `left` are the messages to hand over: it finds the
first of them, or the input is used up. -/
inductive Parsed (unseen : Bytes) (left : List Bytes) :
    Except ErrorInfo Bool → ZstdStreamingParser Z → Prop where
  | found {m : Bytes} {done contents : List Bytes} {part : Bytes} {q : ZstdStreamingParser Z}
      (h : q.Decoding unseen (m :: done) part contents) (hleft : left = m :: (done ++ contents))
      (hparsed : q.msgpackParser.parsedBufSize = m.length) : Parsed unseen left (.ok true) q
  | more {part : Bytes} {q : ZstdStreamingParser Z} (h : q.Decoding unseen [] part left)
      (hempty : q.inputSize = 0) : Parsed unseen left (.ok false) q

/-- **`parse_next` throws nothing and stops for one of two reasons.** -/
theorem Decoding.parseNext {F : Framer UInt8} {consumedBufSize : Nat}
    (h : (p.consumed consumedBufSize).Decoding unseen done part contents)
    (hlate : Z.decoder.LateOutput) (hempty : F.Unfinished [])
    (hframes : ∀ m ∈ done ++ contents, F.IsFrame m) (fresh : Nat → UInt8) {fuel : Nat}
    (hfuel : contents.flatten.length < fuel) :
    ∃ result q, p.parseNext F (some fresh) fuel consumedBufSize = some (result, q) ∧
      Parsed unseen (done ++ contents) result q := by
  obtain ⟨q, done', part', contents', hloop, hq, hsame, hend⟩ :=
    h.decompress fresh (Nat.lt_add_right _ hfuel)
  rw [hsame] at hframes ⊢
  have htaken := hq.takeRead
  have hparse := htaken.parse hlate hempty hframes
  unfold ZstdStreamingParser.parseNext
  simp only [hloop]
  cases done' with
  | cons m done' =>
    rw [MsgpackStreamingParser.parseNext_of_complete hparse]
    have hwf := htaken.wf
    exact ⟨_, _, rfl, .found ⟨⟨hwf.buffer, hwf.capacity, hwf.size, hwf.pos,
      ⟨hwf.msgpack.buffer, hwf.msgpack.consumed⟩, hwf.msgpackCapacity⟩, htaken.buffered,
      htaken.ahead⟩ rfl rfl⟩
  | nil =>
    rw [MsgpackStreamingParser.parseNext_of_incomplete hparse]
    refine ⟨_, _, rfl, .more htaken ?_⟩
    rcases hend with hall | hdone
    · show q.inputSize - q.inputPos = 0
      omega
    · exact absurd rfl hdone

/-- **`get` hands over the message that was found.** -/
theorem Decoding.get {m : Bytes} (h : p.Decoding unseen (m :: done) part contents)
    (hparsed : p.msgpackParser.parsedBufSize = m.length) :
    p.get.1 = m ∧ p.get.2.Decoding unseen done part contents := by
  have hbuffered : p.msgpackParser.buffered = m ++ (done.flatten ++ part) := by
    rw [h.buffered, List.flatten_cons, List.append_assoc]
  obtain ⟨hmessage, hwf, hrest⟩ := h.wf.get hbuffered hparsed
  exact ⟨hmessage, hwf, hrest, h.ahead⟩

/-! ## Chunk by chunk -/

/-- The parser waits for more: everything it was given is decompressed, and what it
has handed over is all that was complete. -/
structure Waiting (p : ZstdStreamingParser Z) (unseen : Bytes) (left : List Bytes) : Prop where
  decoding : ∃ part, p.Decoding unseen [] part left
  empty : p.inputSize = 0

/-- **After a chunk**: messages are handed over in order until the parser waits. -/
theorem Decoding.drain {F : Framer UInt8} {consumedBufSize : Nat}
    (h : (p.consumed consumedBufSize).Decoding unseen done part contents)
    (hlate : Z.decoder.LateOutput) (hempty : F.Unfinished [])
    (hframes : ∀ m ∈ done ++ contents, F.IsFrame m) (fresh : Nat → UInt8) {fuel : Nat}
    (hfuel : (done ++ contents).flatten.length + (done ++ contents).length < fuel) :
    ∃ messages left q,
      ZstdStreamingParser.drain F (some fresh) fuel p consumedBufSize = some (messages, q) ∧
      done ++ contents = messages ++ left ∧ q.Waiting unseen left := by
  induction fuel generalizing p done part contents consumedBufSize with
  | zero => omega
  | succ fuel ih =>
    have hcontents : contents.flatten.length < fuel + 1 := by
      rw [List.flatten_append, List.length_append] at hfuel
      omega
    obtain ⟨result, q, hnext, hparsed⟩ := h.parseNext hlate hempty hframes fresh hcontents
    unfold ZstdStreamingParser.drain
    simp only [hnext]
    cases hparsed with
    | more hq hzero => exact ⟨[], _, q, rfl, rfl, ⟨_, hq⟩, hzero⟩
    | found hq hleft hsize =>
      rename_i m done' contents' part'
      obtain ⟨hmessage, hrest⟩ := hq.get hsize
      rw [hleft] at hframes hfuel
      simp only [List.flatten_cons, List.length_append, List.length_cons] at hfuel
      have hrest' : (q.get.2.consumed 0).Decoding unseen done' part' contents' := hrest
      obtain ⟨messages, left, q', hdrain, hsplit, hwaiting⟩ :=
        ih hrest' (List.forall_mem_cons.mp hframes).2 (by rw [List.length_append]; omega)
      refine ⟨m :: messages, left, q', ?_, ?_, hwaiting⟩
      · simp only [hdrain, hmessage, Option.map_some]
      · rw [hleft, hsplit]
        rfl

/-- A chunk is written into the buffer of a parser that waits. -/
theorem Waiting.receive {left : List Bytes} {chunk : Chunk}
    (h : p.Waiting (chunk.bytes ++ unseen) left) (fresh : Nat → UInt8) :
    ∃ q part, p.prepareBuffer (chunk.bytes.length + chunk.room) (some fresh) = some q ∧
      ((q.store chunk.bytes).consumed chunk.bytes.length).Decoding unseen [] part left := by
  obtain ⟨⟨part, hdecoding⟩, -⟩ := h
  obtain ⟨q, hprepare, hwf, hunread, hcontext, hmsgpack⟩ :=
    hdecoding.wf.receive chunk.bytes chunk.room fresh
  refine ⟨q, part, hprepare, hwf, ?_, ?_⟩
  · show q.msgpackParser.buffered = _
    rw [hmsgpack, hdecoding.buffered]
  · show Z.decoder.Ahead q.context part _ left
    rw [hcontext, hunread, List.append_assoc]
    exact hdecoding.ahead

/-- **All messages are handed over**, whatever the chunks are. -/
theorem Waiting.feed {F : Framer UInt8} {left : List Bytes} {chunks : List Chunk}
    (h : p.Waiting (chunks.map Chunk.bytes).flatten left) (hlate : Z.decoder.LateOutput)
    (hempty : F.Unfinished []) (hframes : ∀ m ∈ left, F.IsFrame m) (fresh : Nat → UInt8)
    {fuel : Nat} (hfuel : left.flatten.length + left.length < fuel) :
    ∃ q, ZstdStreamingParser.feed F (some fresh) fuel p chunks = some (left, q) := by
  induction chunks generalizing p left with
  | nil =>
    obtain ⟨⟨part, hdecoding⟩, hzero⟩ := h
    have hahead := hdecoding.ahead
    rw [hdecoding.wf.unread_eq_nil hzero] at hahead
    rw [hahead.eq_nil.2]
    exact ⟨p, rfl⟩
  | cons chunk chunks ih =>
    obtain ⟨q, part, hprepare, hq⟩ := h.receive fresh
    obtain ⟨messages, left', q', hdrain, hsplit, hwaiting⟩ :=
      hq.drain hlate hempty hframes fresh hfuel
    rw [List.nil_append] at hsplit
    subst hsplit
    rw [List.flatten_append, List.length_append, List.length_append] at hfuel
    obtain ⟨q'', hfeed⟩ :=
      ih hwaiting (fun m hm => hframes m (List.mem_append_right _ hm)) (by omega)
    refine ⟨q'', ?_⟩
    unfold ZstdStreamingParser.feed
    simp only [hprepare, hdrain, hfeed, Option.map_some]

/-! ## The round trip -/

theorem msgpack_ne_nil {m : Bytes} (h : Msgpack.framer.IsFrame m) : m ≠ [] := by
  intro hnil
  subst hnil
  cases h

/-- **Compressed streams round trip**: the messages compressed one after the other,
concatenated and cut into any chunks come out of the parser as they were, in order,
and all of them. -/
theorem compressed_round_trip (hlate : Z.decoder.LateOutput) {messages : List MessageData}
    (hmessages : ∀ m ∈ messages, Msgpack.framer.IsFrame m) (fresh : Nat → UInt8) :
    ∃ frames,
      ZstdStreamingCompressor.compressAll Z (ZstdStreamingCompressor.init Z) messages =
        .ok frames ∧
      ∀ chunks : List Chunk, (chunks.map Chunk.bytes).flatten = frames.flatten →
        ∃ enough, ∀ fuel ≥ enough, ∃ q,
          feed Msgpack.framer (some fresh) fuel (make Z fresh) chunks = some (messages, q) := by
  obtain ⟨frames, hframes, hall⟩ :=
    ZstdStreamingCompressor.compressAll_spec (fun m hm => msgpack_ne_nil (hmessages m hm))
      (Z.ready_reset Z.createCCtx)
  refine ⟨frames, hframes, ?_⟩
  intro chunks hchunks
  refine ⟨messages.flatten.length + messages.length + 1, ?_⟩
  intro fuel hfuel
  have hwaiting : (make Z fresh).Waiting (chunks.map Chunk.bytes).flatten messages := by
    rw [hchunks]
    exact ⟨⟨[], wf_make fresh, rfl, .boundary Z.boundary_createDCtx hall⟩, rfl⟩
  exact hwaiting.feed hlate (F := Msgpack.framer) rfl hmessages fresh (by omega)

end ZstdStreamingParser

/-! ## Frames of stored blocks -/

namespace StoredFrames

/-- The library, for contents that it stores. -/
def library : Zstd where
  decoder :=
    { Context := Context
      decode := decodeBy step
      IsFrame := IsFrame
      Boundary := (· = .header [])
      InFrame := fun d content => InFrame content d
      enter := by
        rintro d content frame rfl hframe
        exact hframe.enter
      rest_ne_nil := by
        intro d content rest out h
        obtain ⟨x, rest', next, out', rfl, -⟩ := stepsInFrame content d rest out h
        exact List.cons_ne_nil x rest'
      decode_spec := fun h hinput _ _ => decodeBy_moves (stepsInFrame _) h hinput }
  createDCtx := .header []
  boundary_createDCtx := rfl
  dStreamOutSize := blockSizeMax
  dStreamOutSize_pos := blockSizeMax_pos
  CCtx := Unit
  createCCtx := ()
  reset := id
  compressBound := compressBound
  compressStream2 _ data capacity :=
    if (encode data).length ≤ capacity then .ok ((), encode data)
    else .error "Destination buffer is too small"
  Ready _ := True
  ready_reset _ := trivial
  compressStream2_spec := by
    intro c data _ _
    exact ⟨(), encode data, if_pos (length_encode_le data), isFrame_encode data, trivial⟩

theorem lateOutput_library : library.decoder.LateOutput :=
  fun _ _ _ _ h hcontent => InFrame.out_ne_nil h hcontent

end StoredFrames

namespace ZstdStreamingParser

/-- The messages `nil` and `false`. -/
def nilThenFalse : List MessageData := [[0xc0], [0xc2]]

theorem isFrame_nilThenFalse : ∀ m ∈ nilThenFalse, Msgpack.framer.IsFrame m := by
  intro m hm
  simp only [nilThenFalse, List.mem_cons, List.not_mem_nil, or_false] at hm
  rcases hm with rfl | rfl
  · rfl
  · rfl

theorem compressed_round_trip_nilThenFalse :
    ∃ frames,
      ZstdStreamingCompressor.compressAll StoredFrames.library
        (ZstdStreamingCompressor.init StoredFrames.library) nilThenFalse = .ok frames ∧
      ∀ chunks : List Chunk, (chunks.map Chunk.bytes).flatten = frames.flatten →
        ∃ enough, ∀ fuel ≥ enough, ∃ q,
          feed Msgpack.framer (some fun _ => 0) fuel (make StoredFrames.library fun _ => 0)
            chunks = some (nilThenFalse, q) :=
  compressed_round_trip StoredFrames.lateOutput_library isFrame_nilThenFalse fun _ => 0

end ZstdStreamingParser

end MpRpc.Transport
