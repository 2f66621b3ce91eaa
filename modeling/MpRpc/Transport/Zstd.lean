import Mathlib
import MpRpc.FrameDecoder
import MpRpc.Transport.MsgpackParser

/-!
# Zstd — compressed streams

`zstd_streaming_compressor` makes one frame of each message.
`zstd_streaming_parser` keeps the bytes received in a buffer with the cursor of
`ZSTD_inBuffer`, decompresses from there into the buffer of a
`msgpack_streaming_parser`, and lets that one find the messages. The zstd library is
a parameter: what `ZSTD_decompressStream` does is a `FrameDecoder`, and
`ZSTD_compressStream2` with `ZSTD_e_end` gives one complete frame.
-/

namespace MpRpc.Transport

/-- The functions of the zstd library that are used, with what they are for. An
error is its `ZSTD_getErrorName`. -/
structure Zstd where
  decoder : FrameDecoder UInt8 UInt8
  createDCtx : decoder.Context
  boundary_createDCtx : decoder.Boundary createDCtx
  /-- `ZSTD_DStreamOutSize()` -/
  dStreamOutSize : Nat
  dStreamOutSize_pos : 0 < dStreamOutSize
  CCtx : Type
  createCCtx : CCtx
  /-- `ZSTD_CCtx_reset` of the session, and the compression level set again -/
  reset : CCtx → CCtx
  compressBound : Nat → Nat
  /-- `ZSTD_compressStream2` of the whole input with `ZSTD_e_end` -/
  compressStream2 : CCtx → Bytes → (capacity : Nat) → Except String (CCtx × Bytes)
  /-- the context has not begun a frame -/
  Ready : CCtx → Prop
  ready_reset : ∀ c, Ready (reset c)
  compressStream2_spec : ∀ {c data}, Ready c → data ≠ [] →
    ∃ c' frame, compressStream2 c data (compressBound data.length) = .ok (c', frame) ∧
      decoder.IsFrame data frame ∧ Ready c'

/-! ## `zstd_streaming_compressor` -/

namespace ZstdStreamingCompressor

variable {Z : Zstd}

/-- The context after the constructor and `init`. -/
def init (Z : Zstd) : Z.CCtx := Z.reset Z.createCCtx

/-- `compress` -/
def compress (Z : Zstd) (context : Z.CCtx) (data : MessageData) :
    Except ErrorInfo (Bytes × Z.CCtx) :=
  match Z.compressStream2 context data (Z.compressBound data.length) with
  | .error name =>
      .error (.of .unexpectedError ("error in compression with zstd library: " ++ name))
  | .ok (context, frame) => .ok (frame, context)

/-- The results of `compress` for messages one after the other. -/
def compressAll (Z : Zstd) : Z.CCtx → List MessageData → Except ErrorInfo (List Bytes)
  | _, [] => .ok []
  | context, data :: rest =>
      match compress Z context data with
      | .error info => .error info
      | .ok (frame, context) =>
          match compressAll Z context rest with
          | .error info => .error info
          | .ok frames => .ok (frame :: frames)

/-- **Every message becomes one frame.** -/
theorem compressAll_spec {messages : List MessageData} (hne : ∀ m ∈ messages, m ≠ [])
    {context : Z.CCtx} (hready : Z.Ready context) :
    ∃ frames, compressAll Z context messages = .ok frames ∧
      List.Forall₂ Z.decoder.IsFrame messages frames := by
  induction messages generalizing context with
  | nil => exact ⟨[], rfl, .nil⟩
  | cons m messages ih =>
    obtain ⟨hm, hrest⟩ := List.forall_mem_cons.mp hne
    obtain ⟨context', frame, hframe, hisFrame, hready'⟩ := Z.compressStream2_spec hready hm
    obtain ⟨frames, hframes, hall⟩ := ih hrest hready'
    refine ⟨frame :: frames, ?_, .cons hisFrame hall⟩
    simp only [compressAll, compress, hframe, hframes]

end ZstdStreamingCompressor

/-! ## `zstd_streaming_parser` -/

/-- The members of `zstd_streaming_parser`; `inputSize` and `inputPos` are those of
`input_`, whose `src` is the block of `buffer`. -/
structure ZstdStreamingParser (Z : Zstd) where
  context : Z.decoder.Context
  buffer : Buffer
  inputSize : Nat := 0
  inputPos : Nat := 0
  msgpackParser : MsgpackStreamingParser

namespace ZstdStreamingParser

variable {Z : Zstd}

/-- The constructor. -/
def make (Z : Zstd) (fresh : Nat → UInt8) : ZstdStreamingParser Z where
  context := Z.createDCtx
  buffer := Buffer.empty fresh
  msgpackParser := { buffer := Buffer.empty fresh }

/-- `prepare_buffer` -/
def prepareBuffer (p : ZstdStreamingParser Z) (size : Nat) (allocation : Allocation) :
    Option (ZstdStreamingParser Z) :=
  (p.buffer.resize (p.inputSize + size) allocation).map fun buffer => { p with buffer }

/-- The caller writes `bytes` from `buffer()` on. -/
def store (p : ZstdStreamingParser Z) (bytes : Bytes) : ZstdStreamingParser Z :=
  { p with buffer := p.buffer.store p.inputSize bytes }

/-- `consumed` -/
def consumed (p : ZstdStreamingParser Z) (consumedBufSize : Nat) : ZstdStreamingParser Z :=
  { p with inputSize := p.inputSize + consumedBufSize }

/-- The input between the cursor and the end. -/
def unread (p : ZstdStreamingParser Z) : Bytes := (p.buffer.data.take p.inputSize).drop p.inputPos

def decompressionError (name : String) : ErrorInfo :=
  .of .invalidMessage ("error in decompression with zstd library: " ++ name)

/-- The parser after a call of `ZSTD_decompressStream` whose output is counted by
`msgpack_parser_.consumed`; of no bytes, that changes nothing. -/
def afterCall (p : ZstdStreamingParser Z) (msgpackParser : MsgpackStreamingParser)
    (call : Decoded Z.decoder.Context UInt8) : ZstdStreamingParser Z :=
  { p with
    context := call.context
    inputPos := p.inputPos + call.consumed
    msgpackParser := (msgpackParser.store call.output).consumed call.output.length }

/-- The `while` loop of `parse_next`, for at most `fuel` rounds: the exception it
throws, if any. `none` is `std::bad_alloc`, or the end of the fuel. -/
def decompress (allocation : Allocation) :
    Nat → ZstdStreamingParser Z → Option (Option ErrorInfo × ZstdStreamingParser Z)
  | 0, _ => none
  | fuel + 1, p =>
      if p.inputPos < p.inputSize then
        match p.msgpackParser.prepareBuffer Z.dStreamOutSize allocation with
        | none => none
        | some msgpackParser =>
            let call := Z.decoder.decode p.context p.unread Z.dStreamOutSize
            match call.error with
            -- the cursor has moved, but the output is not counted
            | some name =>
                some (some (decompressionError name),
                  { p with
                    context := call.context
                    inputPos := p.inputPos + call.consumed
                    msgpackParser := msgpackParser.store call.output })
            | none =>
                let p := p.afterCall msgpackParser call
                if p.inputPos = p.inputSize ∨ call.output.length < Z.dStreamOutSize then
                  some (none, p)
                else decompress allocation fuel p
      else some (none, p)

/-- The end of the loop: what was read is taken off the buffer. -/
def takeRead (p : ZstdStreamingParser Z) : ZstdStreamingParser Z :=
  { p with
    buffer := p.buffer.consume p.inputPos
    inputSize := p.inputSize - p.inputPos
    inputPos := 0 }

/-- `parse_next`: its result or the exception it throws, and the parser after it. -/
def parseNext (F : Framer UInt8) (allocation : Allocation) (fuel : Nat)
    (p : ZstdStreamingParser Z) (consumedBufSize : Nat) :
    Option (Except ErrorInfo Bool × ZstdStreamingParser Z) :=
  match decompress allocation fuel (p.consumed consumedBufSize) with
  | none => none
  | some (some info, p) => some (.error info, p)
  | some (none, p) =>
      let p := p.takeRead
      let parsed := p.msgpackParser.parseNext F 0
      some (parsed.1, { p with msgpackParser := parsed.2 })

/-- `get` -/
def get (p : ZstdStreamingParser Z) : MessageData × ZstdStreamingParser Z :=
  (p.msgpackParser.get.1, { p with msgpackParser := p.msgpackParser.get.2 })

/-! ## The cursors -/

/-- The cursors lie in the bytes in use, and no block is empty. -/
structure Wf (p : ZstdStreamingParser Z) : Prop where
  buffer : p.buffer.Wf
  capacity : 0 < p.buffer.capacity
  size : p.inputSize ≤ p.buffer.size
  pos : p.inputPos ≤ p.inputSize
  msgpack : p.msgpackParser.Wf
  msgpackCapacity : 0 < p.msgpackParser.buffer.capacity

variable {p : ZstdStreamingParser Z}

theorem wf_make (fresh : Nat → UInt8) : (make Z fresh).Wf := by
  have hcapacity : 0 < (Buffer.empty fresh).capacity := by simp [Buffer.capacity, Buffer.empty]
  exact ⟨Nat.zero_le _, hcapacity, Nat.le_refl _, Nat.le_refl _,
    ⟨Nat.zero_le _, Nat.le_refl _⟩, hcapacity⟩

theorem Wf.length_unread (h : p.Wf) : p.unread.length = p.inputSize - p.inputPos := by
  have hcap : p.buffer.size ≤ p.buffer.data.length := h.buffer
  have hsize := h.size
  unfold unread
  rw [List.length_drop, List.length_take]
  omega

theorem Wf.unread_eq_nil (h : p.Wf) (hzero : p.inputSize = 0) : p.unread = [] := by
  apply List.eq_nil_of_length_eq_zero
  rw [h.length_unread, hzero, Nat.zero_sub]

/-- **Receiving appends** to the input. -/
theorem Wf.receive (h : p.Wf) (bytes : Bytes) (room : Nat) (fresh : Nat → UInt8) :
    ∃ q, p.prepareBuffer (bytes.length + room) (some fresh) = some q ∧
      ((q.store bytes).consumed bytes.length).Wf ∧
      ((q.store bytes).consumed bytes.length).unread = p.unread ++ bytes ∧
      q.context = p.context ∧ q.msgpackParser = p.msgpackParser := by
  obtain ⟨buffer, hbuffer⟩ :=
    Buffer.exists_resize h.capacity (p.inputSize + (bytes.length + room)) fresh
  obtain ⟨hsize, hwf, hkeep⟩ := Buffer.resize_spec hbuffer
  have hgrow := Buffer.capacity_le_resize hbuffer
  have hcap : p.inputSize ≤ p.buffer.capacity := Nat.le_trans h.size h.buffer
  have hpos := h.pos
  refine ⟨{ p with buffer }, by rw [prepareBuffer, hbuffer]; rfl, ⟨?_, ?_, ?_, ?_, h.msgpack,
    h.msgpackCapacity⟩, ?_, rfl, rfl⟩
  · exact Buffer.wf_store hwf _ _
  · exact Nat.lt_of_lt_of_le h.capacity (Nat.le_trans hgrow (Buffer.capacity_le_store _ _ _))
  · show p.inputSize + bytes.length ≤ buffer.size
    omega
  · show p.inputPos ≤ p.inputSize + bytes.length
    omega
  · show ((buffer.store p.inputSize bytes).data.take (p.inputSize + bytes.length)).drop
      p.inputPos = _
    rw [Buffer.take_store (Nat.le_trans hcap hgrow), hkeep _ (by omega) hcap,
      List.drop_append_of_le_length, unread]
    rw [List.length_take]
    exact Nat.le_min.mpr ⟨hpos, Nat.le_trans hpos hcap⟩

/-- **A call moves bytes**: those it read off the input, its output to the bytes of
the inner parser. -/
theorem Wf.afterCall (h : p.Wf) {msgpackParser : MsgpackStreamingParser} {allocation : Allocation}
    (hprepare : p.msgpackParser.prepareBuffer Z.dStreamOutSize allocation = some msgpackParser)
    {call : Decoded Z.decoder.Context UInt8} (hconsumed : call.consumed ≤ p.unread.length)
    (houtput : call.output.length ≤ Z.dStreamOutSize) :
    (p.afterCall msgpackParser call).Wf ∧
      (p.afterCall msgpackParser call).unread = p.unread.drop call.consumed ∧
      (p.afterCall msgpackParser call).msgpackParser.buffered =
        p.msgpackParser.buffered ++ call.output := by
  obtain ⟨hwf, hbuffered, hroom⟩ := MsgpackStreamingParser.prepareBuffer_spec h.msgpack hprepare
  obtain ⟨hwf', hbuffered'⟩ :=
    MsgpackStreamingParser.received_spec hwf call.output (by omega)
  refine ⟨⟨h.buffer, h.capacity, h.size, ?_, hwf', ?_⟩, ?_, ?_⟩
  · show p.inputPos + call.consumed ≤ p.inputSize
    have hlength := h.length_unread
    have hpos := h.pos
    omega
  · obtain ⟨buffer, hresize, rfl⟩ := Option.map_eq_some_iff.mp hprepare
    exact Nat.lt_of_lt_of_le h.msgpackCapacity (Nat.le_trans (Buffer.capacity_le_resize hresize)
      (Buffer.capacity_le_store _ _ _))
  · show (p.buffer.data.take p.inputSize).drop (p.inputPos + call.consumed) = _
    rw [unread, List.drop_drop]
  · show ((msgpackParser.store call.output).consumed call.output.length).buffered = _
    rw [hbuffered', hbuffered]

/-- Taking the bytes that were read off the buffer leaves the others. -/
theorem Wf.takeRead (h : p.Wf) : p.takeRead.Wf ∧ p.takeRead.unread = p.unread := by
  obtain ⟨hsize, hwf, hkeep⟩ := Buffer.consume_spec h.buffer p.inputPos
  have hle := h.size
  refine ⟨⟨hwf, ?_, ?_, Nat.zero_le _, h.msgpack, h.msgpackCapacity⟩, ?_⟩
  · show 0 < (p.buffer.consume p.inputPos).capacity
    rw [Buffer.capacity_consume h.buffer]
    exact h.capacity
  · show p.inputSize - p.inputPos ≤ (p.buffer.consume p.inputPos).size
    omega
  · show ((p.buffer.consume p.inputPos).data.take (p.inputSize - p.inputPos)).drop 0 = _
    rw [List.drop_zero, hkeep _ (by omega), unread, List.drop_take]

/-- **`get` hands over** the bytes that `parse_next` found. -/
theorem Wf.get (h : p.Wf) {m rest : Bytes} (hbuffered : p.msgpackParser.buffered = m ++ rest)
    (hparsed : p.msgpackParser.parsedBufSize = m.length) :
    p.get.1 = m ∧ p.get.2.Wf ∧ p.get.2.msgpackParser.buffered = rest := by
  have hle : p.msgpackParser.parsedBufSize ≤ p.msgpackParser.consumedBufSize := by
    rw [← h.msgpack.length_buffered, hbuffered, hparsed, List.length_append]
    omega
  obtain ⟨hmessage, hwf, hrest⟩ := MsgpackStreamingParser.get_spec h.msgpack hle
  rw [hbuffered, hparsed, List.take_left] at hmessage
  rw [hbuffered, hparsed, List.drop_left] at hrest
  refine ⟨hmessage, ⟨h.buffer, h.capacity, h.size, h.pos, hwf, ?_⟩, hrest⟩
  show 0 < (p.msgpackParser.buffer.consume _).capacity
  rw [Buffer.capacity_consume h.msgpack.buffer]
  exact h.msgpackCapacity

/-! ## As `stream_socket_helper` uses it -/

/-- `parse_next`, and after each success `get` and `parse_next(0)`, until there is no
further message: the messages. `none` is an exception, or the end of the fuel. -/
def drain (F : Framer UInt8) (allocation : Allocation) :
    Nat → ZstdStreamingParser Z → Nat → Option (List MessageData × ZstdStreamingParser Z)
  | 0, _, _ => none
  | fuel + 1, p, consumedBufSize =>
      match p.parseNext F allocation (fuel + 1) consumedBufSize with
      | some (.ok true, p) =>
          (drain F allocation fuel p.get.2 0).map fun rest => (p.get.1 :: rest.1, rest.2)
      | some (.ok false, p) => some ([], p)
      | _ => none

/-- What one read brings: the bytes, and the room that was left in the buffer. -/
structure Chunk where
  bytes : Bytes
  room : Nat

/-- The chunks one after the other. -/
def feed (F : Framer UInt8) (allocation : Allocation) (fuel : Nat) :
    ZstdStreamingParser Z → List Chunk → Option (List MessageData × ZstdStreamingParser Z)
  | p, [] => some ([], p)
  | p, chunk :: chunks =>
      match p.prepareBuffer (chunk.bytes.length + chunk.room) allocation with
      | none => none
      | some p =>
          match drain F allocation fuel (p.store chunk.bytes) chunk.bytes.length with
          | none => none
          | some (messages, p) =>
              (feed F allocation fuel p chunks).map fun rest => (messages ++ rest.1, rest.2)

end ZstdStreamingParser

end MpRpc.Transport
