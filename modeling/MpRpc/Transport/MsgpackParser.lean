import MpRpc.Framing
import MpRpc.Transport.Buffer

/-!
# MsgpackParser — the streaming parser of a socket

`msgpack_streaming_parser` keeps the bytes received and not yet handed over at
the front of a `buffer`, counts them in `consumed_buf_size_`, and remembers in
`parsed_buf_size_` how long the message found by `parse_next` is. What it is for
is said by `buffered`: receiving appends to it, and `get` cuts a message off its
front. The framer stands for `::msgpack::parse`.
-/

namespace MpRpc.Transport

/-- `msgpack_streaming_parser` -/
structure MsgpackStreamingParser where
  buffer : Buffer
  consumedBufSize : Nat := 0
  parsedBufSize : Nat := 0

namespace MsgpackStreamingParser

/-- `prepare_buffer` -/
def prepareBuffer (p : MsgpackStreamingParser) (size : Nat) (allocation : Allocation) :
    Option MsgpackStreamingParser :=
  (p.buffer.resize (p.consumedBufSize + size) allocation).map fun buffer =>
    { p with buffer := buffer }

/-- The caller writes `bytes` from `buffer()` on. -/
def store (p : MsgpackStreamingParser) (bytes : Bytes) : MsgpackStreamingParser :=
  { p with buffer := p.buffer.store p.consumedBufSize bytes }

/-- `consumed` -/
def consumed (p : MsgpackStreamingParser) (consumedBufSize : Nat) : MsgpackStreamingParser :=
  { p with consumedBufSize := p.consumedBufSize + consumedBufSize }

/-- The bytes received and not handed over yet. -/
def buffered (p : MsgpackStreamingParser) : Bytes := p.buffer.data.take p.consumedBufSize

/-- The exception of the visitor's `parse_error`. -/
def parseError : ErrorInfo := .of .parseError "failed to parse a message"

/-- `parse_next`: its result or the exception it throws, and the parser after it. -/
def parseNext (F : Framer UInt8) (p : MsgpackStreamingParser) (consumedBufSize : Nat) :
    Except ErrorInfo Bool × MsgpackStreamingParser :=
  let p := p.consumed consumedBufSize
  match F.parse p.buffered with
  | .complete offset => (.ok true, { p with parsedBufSize := offset })
  | .incomplete => (.ok false, p)
  | .error => (.error parseError, p)

/-- `get` -/
def get (p : MsgpackStreamingParser) : MessageData × MsgpackStreamingParser :=
  (p.buffer.data.take p.parsedBufSize,
    { buffer := p.buffer.consume p.parsedBufSize
      consumedBufSize := p.consumedBufSize - p.parsedBufSize
      parsedBufSize := 0 })

/-- The counted bytes are in use. -/
structure Wf (p : MsgpackStreamingParser) : Prop where
  buffer : p.buffer.Wf
  consumed : p.consumedBufSize ≤ p.buffer.size

variable {p q : MsgpackStreamingParser}

theorem Wf.le_capacity (h : p.Wf) : p.consumedBufSize ≤ p.buffer.capacity :=
  Nat.le_trans h.consumed h.buffer

theorem Wf.length_buffered (h : p.Wf) : p.buffered.length = p.consumedBufSize := by
  rw [buffered, List.length_take]
  exact Nat.min_eq_left h.le_capacity

/-- Preparing makes room behind the buffered bytes and keeps them. -/
theorem prepareBuffer_spec (h : p.Wf) {size : Nat} {allocation : Allocation}
    (hp : p.prepareBuffer size allocation = some q) :
    q.Wf ∧ q.buffered = p.buffered ∧ q.consumedBufSize + size = q.buffer.size := by
  rw [prepareBuffer, Option.map_eq_some_iff] at hp
  obtain ⟨buffer, hb, hq⟩ := hp
  subst hq
  obtain ⟨hsize, hwf, hkeep⟩ := Buffer.resize_spec hb
  refine ⟨⟨hwf, ?_⟩, ?_, ?_⟩
  · show p.consumedBufSize ≤ buffer.size
    omega
  · exact hkeep p.consumedBufSize (by omega) h.le_capacity
  · show p.consumedBufSize + size = buffer.size
    omega

theorem consumedBufSize_prepareBuffer {size : Nat} {allocation : Allocation}
    (hp : p.prepareBuffer size allocation = some q) : q.consumedBufSize = p.consumedBufSize := by
  obtain ⟨buffer, -, rfl⟩ := Option.map_eq_some_iff.mp hp
  rfl

/-- **Receiving appends**: bytes written into the prepared room and counted are
the last of the buffered bytes. -/
theorem received_spec (h : p.Wf) (bytes : Bytes)
    (hroom : p.consumedBufSize + bytes.length ≤ p.buffer.size) :
    ((p.store bytes).consumed bytes.length).Wf ∧
      ((p.store bytes).consumed bytes.length).buffered = p.buffered ++ bytes :=
  ⟨⟨Buffer.wf_store h.buffer _ _, hroom⟩, Buffer.take_store h.le_capacity bytes⟩

theorem parseNext_of_complete {F : Framer UInt8} {n : Nat} (h : F.parse p.buffered = .complete n) :
    p.parseNext F 0 = (.ok true, { p with parsedBufSize := n }) := by
  have hzero : p.consumed 0 = p := rfl
  simp only [parseNext, hzero, h]

theorem parseNext_of_incomplete {F : Framer UInt8} (h : F.parse p.buffered = .incomplete) :
    p.parseNext F 0 = (.ok false, p) := by
  have hzero : p.consumed 0 = p := rfl
  simp only [parseNext, hzero, h]

/-- **`get` cuts the front off**: the message and what stays buffered. -/
theorem get_spec (h : p.Wf) (hparsed : p.parsedBufSize ≤ p.consumedBufSize) :
    p.get.1 = p.buffered.take p.parsedBufSize ∧ p.get.2.Wf ∧
      p.get.2.buffered = p.buffered.drop p.parsedBufSize := by
  obtain ⟨hsize, hwf, hkeep⟩ := Buffer.consume_spec h.buffer p.parsedBufSize
  have hle := h.consumed
  refine ⟨?_, ⟨hwf, ?_⟩, ?_⟩
  · show p.buffer.data.take p.parsedBufSize = (p.buffer.data.take p.consumedBufSize).take _
    rw [List.take_take, Nat.min_eq_left hparsed]
  · show p.consumedBufSize - p.parsedBufSize ≤ (p.buffer.consume p.parsedBufSize).size
    omega
  · show (p.buffer.consume p.parsedBufSize).data.take (p.consumedBufSize - p.parsedBufSize) =
      (p.buffer.data.take p.consumedBufSize).drop p.parsedBufSize
    rw [hkeep _ (by omega), List.drop_take]

end MsgpackStreamingParser

end MpRpc.Transport
