import Mathlib
import MpRpc.Msgpack.Parse
import MpRpc.Transport.ParserClass
import MpRpc.Transport.StoredFrames
import MpRpc.Transport.Zstd

/-!
# ParserCursors — the cursors of the streaming parsers

The members of `zstd_streaming_parser` over memory. `ZSTD_decompressStream` reads its
input through `input_.src`, which has to follow the block of `buffer_`, and writes into
the block of the inner parser, which the loop of `parse_next` grows. In both parsers the
cursors stay in order through calls that throw. The one exception is a `prepare_buffer`
whose sum wraps around: it makes the buffer smaller than what it keeps.
-/

namespace MpRpc.Transport

open Method

/-- The functions of the zstd library that the parser uses. All that is known of
`ZSTD_decompressStream` is that it moves its cursors within their sizes. -/
structure DStream where
  Context : Type
  /-- `ZSTD_createDCtx()` -/
  createDCtx : Context
  /-- `ZSTD_DStreamOutSize()` -/
  dStreamOutSize : Nat
  dStreamOutSize_pos : 0 < dStreamOutSize
  /-- `ZSTD_decompressStream` -/
  decompressStream : Context → (input : Bytes) → (capacity : Nat) → Decoded Context UInt8
  consumed_le : ∀ context input capacity,
    (decompressStream context input capacity).consumed ≤ input.length
  output_le : ∀ context input capacity,
    (decompressStream context input capacity).output.length ≤ capacity

/-- `ZSTD_inBuffer` -/
structure InBuffer where
  src : Nat
  size : Nat := 0
  pos : Nat := 0

/-- The members of `zstd_streaming_parser`. -/
structure RawZstdParser (D : DStream) where
  buffer : RawBuffer
  input : InBuffer
  msgpackParser : RawMsgpackParser
  context : D.Context
  /-- no member: whether a subtraction of sizes has gone below zero -/
  underflowed : Bool := false
  /-- no member: whether zstd has read through another pointer than `buffer_.data()` -/
  strayed : Bool := false

namespace RawZstdParser

variable {D : DStream}

def onBuffer {α : Type} (c : Method RawBuffer α) : Method (RawZstdParser D) α :=
  inMember buffer (fun b p => { p with buffer := b }) c

def onMsgpackParser {α : Type} (c : Method RawMsgpackParser α) : Method (RawZstdParser D) α :=
  inMember msgpackParser (fun q p => { p with msgpackParser := q }) c

/-- The constructor. -/
def make (D : DStream) (limit : Nat) (first second : Allocation) :
    Command Memory Thrown (RawZstdParser D) := do
  let buffer ← RawBuffer.ofSize limit 0 first
  let msgpackParser ← RawMsgpackParser.make limit second
  pure { buffer, input := { src := buffer.data }, msgpackParser, context := D.createDCtx }

/-- `prepare_buffer` -/
def prepareBuffer (limit size : Nat) (allocation : Allocation) :
    Method (RawZstdParser D) Unit := do
  let p ← this
  onBuffer (RawBuffer.resize limit (addSize p.input.size size) allocation)
  assign fun p => { p with input := { p.input with src := p.buffer.data } }

/-- `consumed` -/
def consumed (consumedBufSize : Nat) : Method (RawZstdParser D) Unit :=
  assign fun p =>
    { p with input := { p.input with size := addSize p.input.size consumedBufSize } }

/-- The call of `ZSTD_decompressStream` with `input_` and the room in the inner parser. -/
def decompressStream : Method (RawZstdParser D) (Decoded D.Context UInt8) := do
  let p ← this
  let input ← inMemory (Memory.load p.input.src p.input.pos (subSize p.input.size p.input.pos))
  let call := D.decompressStream p.context input D.dStreamOutSize
  inMemory (Memory.memcpy p.msgpackParser.buffer.data (p.msgpackParser.consumedBufSize + 0)
    call.output)
  assign fun p =>
    { p with
      context := call.context
      input := { p.input with pos := p.input.pos + call.consumed }
      strayed := p.strayed || decide (p.input.src ≠ p.buffer.data) }
  pure call

/-- The output is counted, if there is any. -/
def countOutput (size : Nat) : Method (RawZstdParser D) Unit :=
  if 0 < size then onMsgpackParser (RawMsgpackParser.consumed size) else pure ()

/-- The `while` loop of `parse_next`, for at most `fuel` rounds. -/
def decompress (limit : Nat) (allocations : Nat → Allocation) :
    Nat → Nat → Method (RawZstdParser D) Unit
  | 0, _ => Command.undefined
  | fuel + 1, round => do
      let p ← this
      if p.input.pos < p.input.size then do
        onMsgpackParser
          (RawMsgpackParser.prepareBuffer limit D.dStreamOutSize (allocations round))
        let call ← decompressStream
        match call.error with
        | some name =>
            Command.throw (.exception (ZstdStreamingParser.decompressionError name))
        | none => do
            countOutput call.output.length
            let p ← this
            if p.input.pos = p.input.size ∨ call.output.length < D.dStreamOutSize then pure ()
            else decompress limit allocations fuel (round + 1)
      else pure ()

/-- The end of the loop: what was read is taken off the buffer. -/
def takeRead : Method (RawZstdParser D) Unit := do
  let p ← this
  onBuffer (RawBuffer.consume p.input.pos)
  assign fun p =>
    { p with
      input := { p.input with size := subSize p.input.size p.input.pos }
      underflowed := p.underflowed || decide (p.input.size < p.input.pos) }
  assign fun p => { p with input := { p.input with pos := 0 } }

/-- `parse_next`. A round that is not the last has filled its output, so there are no more
of them than the largest block has bytes. -/
def parseNext (limit : Nat) (parse : Bytes → Verdict) (consumedBufSize : Nat)
    (allocations : Nat → Allocation) : Method (RawZstdParser D) Bool := do
  consumed consumedBufSize
  decompress limit allocations (limit + 1) 0
  takeRead
  onMsgpackParser (RawMsgpackParser.parseNext parse 0)

/-- `get` -/
def get (allocated : Bool) : Method (RawZstdParser D) Bytes :=
  onMsgpackParser (RawMsgpackParser.get allocated)

/-- The class. -/
def streamingParser (D : DStream) (limit : Nat) (parse : Bytes → Verdict) :
    ParserClass (RawZstdParser D) where
  prepareBuffer := prepareBuffer limit
  buffer p := (p.buffer.data, p.input.size)
  consumed := consumed
  parseNext := parseNext limit parse
  get := get

/-- The decompressed bytes that are not handed over yet. -/
def buffered (m : Memory) (p : RawZstdParser D) : Bytes := p.msgpackParser.buffered m

/-- **The cursors are in order**, and behind them there is room for what is prepared. -/
structure Cursors (m : Memory) (p : RawZstdParser D) (prepared : Nat) : Prop where
  msgpackParser : p.msgpackParser.Cursors m 0
  pos : p.input.pos ≤ p.input.size
  size : p.input.size ≤ p.buffer.size
  src : p.input.src = p.buffer.data
  room : p.input.size + prepared ≤ p.buffer.size
  buffer : RawBuffer.Sound m p.buffer
  underflowed : p.underflowed = false
  strayed : p.strayed = false

/-- The members stand for the buffer `B` and the inner parser `P`, which have room for
`prepared` and `inner` more bytes and share no block. -/
structure Inv (limit inner prepared : Nat) (m : Memory) (p : RawZstdParser D) (B : Buffer)
    (P : MsgpackStreamingParser) : Prop where
  buffer : RawBuffer.Holds limit m p.buffer B
  msgpackParser : p.msgpackParser.Inv limit m P inner
  apart : p.msgpackParser.buffer.data ≠ p.buffer.data
  src : p.input.src = p.buffer.data
  pos : p.input.pos ≤ p.input.size
  room : p.input.size + prepared ≤ B.size
  underflowed : p.underflowed = false
  strayed : p.strayed = false

variable {limit inner prepared : Nat} {m : Memory} {p : RawZstdParser D} {B : Buffer}
  {P : MsgpackStreamingParser}

theorem Inv.room_le_limit (h : Inv limit inner prepared m p B P) :
    p.input.size + prepared ≤ limit :=
  Nat.le_trans h.room (Nat.le_trans h.buffer.wf h.buffer.max)

theorem Inv.cursors (h : Inv limit inner prepared m p B P) : Cursors m p prepared where
  msgpackParser := (h.msgpackParser.mono (Nat.zero_le _)).cursors
  pos := h.pos
  size := by
    rw [h.buffer.size]
    exact Nat.le_trans (Nat.le_add_right _ _) h.room
  src := h.src
  room := by
    rw [h.buffer.size]
    exact h.room
  buffer := h.buffer.sound
  underflowed := h.underflowed
  strayed := h.strayed

/-- The inner parser has worked in its own block. -/
theorem Inv.withMsgpackParser (h : Inv limit inner prepared m p B P) {m' : Memory}
    {q : RawMsgpackParser} {P' : MsgpackStreamingParser} {inner' : Nat}
    (h' : q.Inv limit m' P' inner')
    (hframe : RawBuffer.Frame m p.msgpackParser.buffer.data m' q.buffer.data) :
    Inv limit inner' prepared m' { p with msgpackParser := q } B P' :=
  { buffer := h.buffer.frame hframe h.apart.symm
    msgpackParser := h'
    apart := (hframe.apart _ _ h.apart.symm h.buffer.block).symm
    src := h.src
    pos := h.pos
    room := h.room
    underflowed := h.underflowed
    strayed := h.strayed }

/-- **The constructor** makes a parser without bytes. -/
theorem wp_make {first second : Allocation} {Q : RawZstdParser D → Memory → Prop}
    {E : Thrown → Memory → Prop} (hQ : ∀ m' p' B' P', Inv limit 0 0 m' p' B' P' → Q p' m')
    (hE : ∀ m', E .badAlloc m') : Command.wp (make D limit first second) Q E m := by
  unfold make
  simp only [Command.wp_bind, Command.wp_pure]
  refine RawBuffer.wp_ofSize ?_ (hE m)
  intro m' b' B' answer hmade h _ hmax
  have hholds : RawBuffer.Holds limit m' b' B' := .ofSize hmade h hmax
  refine RawMsgpackParser.wp_make ?_ (hE m')
  intro m'' q P' hq hframe
  have hne : b'.data ≠ m'.next := Nat.ne_of_lt (Heap.lt_next h.block)
  refine hQ m'' _ B' P' ?_
  exact
    { buffer := hholds.frame hframe hne
      msgpackParser := hq
      apart := (hframe.apart _ _ hne h.block).symm
      src := rfl
      pos := Nat.le_refl _
      room := Nat.zero_le _
      underflowed := rfl
      strayed := rfl }

/-- **`prepare_buffer`** makes room and lets the pointer of zstd follow the block, or throws
and has changed nothing. -/
theorem wp_prepareBuffer {size : Nat} {allocation : Allocation}
    (h : Inv limit inner prepared m p B P) (hfits : p.input.size + size < 2 ^ 64)
    {Q : Unit → Memory × RawZstdParser D → Prop} {E : Thrown → Memory × RawZstdParser D → Prop}
    (hQ : ∀ m' p' B', Inv limit inner size m' p' B' P → Q () (m', p'))
    (hE : E .badAlloc (m, p)) : Command.wp (prepareBuffer limit size allocation) Q E (m, p) := by
  unfold prepareBuffer onBuffer
  simp only [Command.wp_bind, wp_this, wp_inMember, wp_assign, addSize_of_lt hfits]
  refine RawBuffer.wp_resize h.buffer.toRepresents (Nat.lt_of_lt_of_le (by decide) h.buffer.min)
    ?_ hE
  intro m' b' B' answer hresize h' hframe hmax
  obtain ⟨hsize, -, -⟩ := Buffer.resize_spec hresize
  refine hQ m' _ B' ?_
  exact
    { buffer := h.buffer.resize hresize h' hmax
      msgpackParser := h.msgpackParser.frame hframe h.apart
      apart := hframe.apart _ _ h.apart h.msgpackParser.buffer.block
      src := rfl
      pos := h.pos
      room := Nat.le_of_eq hsize.symm
      underflowed := h.underflowed
      strayed := h.strayed }

/-- **A sum that wraps around** makes the buffer smaller than the input it has to keep. -/
theorem wp_prepareBuffer_of_wrap {size : Nat} {allocation : Allocation}
    (h : Inv limit inner prepared m p B P) (hlimit : limit < 2 ^ 64) (hsize : size < 2 ^ 64)
    (hwrap : ¬ p.input.size + size < 2 ^ 64)
    {Q : Unit → Memory × RawZstdParser D → Prop} {E : Thrown → Memory × RawZstdParser D → Prop}
    (hQ : ∀ p' : RawZstdParser D, p'.buffer.size < p'.input.size → Q () (m, p')) :
    Command.wp (prepareBuffer limit size allocation) Q E (m, p) := by
  have hroom := h.room_le_limit
  have hlt := addSize_lt_left hsize hwrap (by omega)
  have hle : addSize p.input.size size ≤ p.buffer.capacity := by
    have hinput := h.room
    have hwf : B.size ≤ B.capacity := h.buffer.wf
    have hcapacity := h.buffer.capacity
    omega
  unfold prepareBuffer onBuffer RawBuffer.resize
  simp only [Command.wp_bind, wp_this, wp_inMember, if_pos hle, wp_assign]
  refine hQ _ ?_
  exact hlt

/-- **`consumed`** counts what is prepared. -/
theorem wp_consumed {size : Nat} (h : Inv limit inner prepared m p B P) (hlimit : limit < 2 ^ 64)
    (hsize : size ≤ prepared) {Q : Unit → Memory × RawZstdParser D → Prop}
    {E : Thrown → Memory × RawZstdParser D → Prop}
    (hQ : ∀ p', Inv limit inner (prepared - size) m p' B P → Q () (m, p')) :
    Command.wp (consumed size) Q E (m, p) := by
  have hroom := h.room
  have hlimit' := h.room_le_limit
  have hpos := h.pos
  have hfits : p.input.size + size < 2 ^ 64 := by omega
  unfold consumed
  simp only [wp_assign, addSize_of_lt hfits]
  refine hQ _ ?_
  refine { h with pos := ?_, room := ?_ }
  · show p.input.pos ≤ p.input.size + size
    omega
  · show p.input.size + size + (prepared - size) ≤ B.size
    omega

/-- **A call of `ZSTD_decompressStream`** reads the input through a pointer that is good,
and its output fits into the room of the inner parser. -/
theorem wp_decompressStream (h : Inv limit D.dStreamOutSize prepared m p B P)
    {Q : Decoded D.Context UInt8 → Memory × RawZstdParser D → Prop}
    {E : Thrown → Memory × RawZstdParser D → Prop}
    (hQ : ∀ call m' p' P', call.output.length ≤ D.dStreamOutSize →
      Inv limit D.dStreamOutSize prepared m' p' B P' → P'.consumedBufSize = P.consumedBufSize →
      Q call (m', p')) :
    Command.wp decompressStream Q E (m, p) := by
  have hblock : m.cell p.input.src = some B.data := by
    rw [h.src]
    exact h.buffer.block
  have hpos := h.pos
  have hroom := h.room
  have hwf : B.size ≤ B.data.length := h.buffer.wf
  have hin : p.input.pos + (p.input.size - p.input.pos) ≤ B.data.length := by omega
  unfold decompressStream
  simp only [Command.wp_bind, wp_this, wp_inMemory, subSize_of_le hpos,
    Memory.wp_load hblock hin]
  generalize hinput : (B.data.drop p.input.pos).take (p.input.size - p.input.pos) = input
  have hlength : input.length ≤ p.input.size - p.input.pos := by
    rw [← hinput, List.length_take]
    exact Nat.min_le_left _ _
  have hconsumed := D.consumed_le p.context input D.dStreamOutSize
  have houtput := D.output_le p.context input D.dStreamOutSize
  refine RawMsgpackParser.wp_memcpy h.msgpackParser (by omega) ?_
  intro m' P' h' hsame hframe
  simp only [wp_assign, Command.wp_pure]
  refine hQ _ m' _ P' houtput ?_ hsame
  refine { h.withMsgpackParser h' hframe with pos := ?_, strayed := ?_ }
  · show p.input.pos + (D.decompressStream p.context input D.dStreamOutSize).consumed ≤
      p.input.size
    omega
  · show (p.strayed || decide (p.input.src ≠ p.buffer.data)) = false
    rw [h.strayed, h.src]
    simp

/-- **The output is counted.** -/
theorem wp_countOutput {size : Nat} (h : Inv limit inner prepared m p B P) (hlimit : limit < 2 ^ 64)
    (hsize : size ≤ inner) {Q : Unit → Memory × RawZstdParser D → Prop}
    {E : Thrown → Memory × RawZstdParser D → Prop}
    (hQ : ∀ p' P', Inv limit 0 prepared m p' B P' →
      P'.consumedBufSize = P.consumedBufSize + size → p'.input = p.input → Q () (m, p')) :
    Command.wp (countOutput size) Q E (m, p) := by
  unfold countOutput onMsgpackParser
  by_cases hpos : 0 < size
  · simp only [if_pos hpos, wp_inMember]
    refine RawMsgpackParser.wp_consumed h.msgpackParser hlimit hsize ?_
    intro q hq hbuffer
    refine hQ _ (P.consumed size) ?_ rfl rfl
    refine h.withMsgpackParser (hq.mono (Nat.zero_le _)) ?_
    rw [hbuffer]
    exact .refl m _
  · simp only [if_neg hpos, Command.wp_pure]
    refine hQ p P ?_ ?_ rfl
    · exact { h with msgpackParser := h.msgpackParser.mono (Nat.zero_le _) }
    · omega

/-- **The loop comes to its end**, with the cursors in order whether it throws or not. Each
round but the last makes the inner parser's bytes more, and they stay in one block. -/
theorem wp_decompress (hlimit : limit + D.dStreamOutSize < 2 ^ 64) (allocations : Nat → Allocation)
    {fuel round : Nat} (h : Inv limit 0 prepared m p B P)
    (hfuel : limit < P.consumedBufSize + fuel) :
    Command.wp (decompress limit allocations fuel round)
      (fun _ s => ∃ P, Inv limit 0 prepared s.1 s.2 B P)
      (fun _ s => ∃ P, Inv limit 0 prepared s.1 s.2 B P) (m, p) := by
  induction fuel generalizing m p P round with
  | zero =>
    have hroom := h.msgpackParser.room_le_limit
    omega
  | succ fuel ih =>
    have hroom := h.msgpackParser.room_le_limit
    have hconsumed := h.msgpackParser.consumed
    unfold decompress onMsgpackParser
    simp only [Command.wp_bind, wp_this, Command.wp_ite, wp_inMember, Command.wp_pure]
    split
    · refine RawMsgpackParser.wp_prepareBuffer h.msgpackParser (by omega) ?_ ⟨P, h⟩
      intro m₁ q P₁ answer hprepare hq hframe
      have hsame₁ := MsgpackStreamingParser.consumedBufSize_prepareBuffer hprepare
      refine wp_decompressStream (h.withMsgpackParser hq hframe) ?_
      intro call m₂ p₂ P₂ houtput h₂ hsame₂
      cases call.error with
      | some name =>
        exact ⟨P₂, { h₂ with msgpackParser := h₂.msgpackParser.mono (Nat.zero_le _) }⟩
      | none =>
        simp only [Command.wp_bind]
        refine wp_countOutput h₂ (by omega) houtput ?_
        intro p₃ P₃ h₃ hcount _
        simp only [wp_this, Command.wp_ite, Command.wp_pure]
        split
        · exact ⟨P₃, h₃⟩
        · rename_i hgo
          have hpos := D.dStreamOutSize_pos
          refine ih h₃ ?_
          omega
    · exact ⟨P, h⟩

/-- **The bytes that were read** are taken off the buffer. -/
theorem wp_takeRead (h : Inv limit inner prepared m p B P)
    {Q : Unit → Memory × RawZstdParser D → Prop} {E : Thrown → Memory × RawZstdParser D → Prop}
    (hQ : ∀ m' p' B', Inv limit inner prepared m' p' B' P → Q () (m', p')) :
    Command.wp takeRead Q E (m, p) := by
  have hpos := h.pos
  have hroom := h.room
  unfold takeRead onBuffer
  simp only [Command.wp_bind, wp_this, wp_inMember]
  refine RawBuffer.wp_consume h.buffer.toRepresents h.buffer.wf ?_
  intro m' b' h' hframe hdata
  obtain ⟨hsize, -, -⟩ := Buffer.consume_spec h.buffer.wf p.input.pos
  simp only [wp_assign]
  refine hQ m' _ (B.consume p.input.pos) ?_
  refine
    { buffer := h.buffer.consume h'
      msgpackParser := h.msgpackParser.frame hframe h.apart
      apart := hframe.apart _ _ h.apart h.msgpackParser.buffer.block
      src := h.src.trans hdata.symm
      pos := Nat.zero_le _
      room := ?_
      underflowed := ?_
      strayed := h.strayed }
  · show subSize p.input.size p.input.pos + prepared ≤ (B.consume p.input.pos).size
    rw [subSize_of_le hpos]
    omega
  · show (p.underflowed || decide (p.input.size < p.input.pos)) = false
    rw [h.underflowed, decide_eq_false (Nat.not_lt.mpr hpos)]
    rfl

/-- **`parse_next`** keeps the cursors in order, whether it throws or not. -/
theorem wp_parseNext {parse : Bytes → Verdict} (hlimit : limit + D.dStreamOutSize < 2 ^ 64)
    (hparse : ∀ xs n, parse xs = .complete n → n ≤ xs.length) {size : Nat}
    {allocations : Nat → Allocation} (h : Inv limit 0 prepared m p B P) (hsize : size ≤ prepared) :
    Command.wp (parseNext limit parse size allocations)
      (fun _ s => ∃ B P, Inv limit 0 (prepared - size) s.1 s.2 B P)
      (fun _ s => ∃ B P, Inv limit 0 (prepared - size) s.1 s.2 B P) (m, p) := by
  unfold parseNext onMsgpackParser
  simp only [Command.wp_bind]
  refine wp_consumed h (by omega) hsize ?_
  intro p₁ h₁
  refine Command.wp_mono (wp_decompress hlimit allocations h₁ (by omega)) ?_ ?_
  · intro _ s hs
    obtain ⟨m₂, p₂⟩ := s
    obtain ⟨P₂, h₂⟩ := hs
    refine wp_takeRead h₂ ?_
    intro m₃ p₃ B₃ h₃
    simp only [wp_inMember]
    refine RawMsgpackParser.wp_parseNext hparse h₃.msgpackParser (by omega) (Nat.le_refl 0) ?_ ?_
    · intro result q P₄ hq hbuffer
      exact ⟨B₃, P₄, h₃.withMsgpackParser hq (hbuffer ▸ .refl m₃ _)⟩
    · intro q P₄ hq hbuffer
      exact ⟨B₃, P₄, h₃.withMsgpackParser hq (hbuffer ▸ .refl m₃ _)⟩
  · intro thrown s hs
    exact ⟨B, hs⟩

/-- **`get`** is that of the inner parser. -/
theorem wp_get {allocated : Bool} (h : Inv limit inner prepared m p B P)
    {Q : Bytes → Memory × RawZstdParser D → Prop} {E : Thrown → Memory × RawZstdParser D → Prop}
    (hQ : ∀ m' p', Inv limit inner prepared m' p' B P.get.2 → Q P.get.1 (m', p'))
    (hE : E .badAlloc (m, p)) : Command.wp (get allocated) Q E (m, p) := by
  unfold get onMsgpackParser
  simp only [wp_inMember]
  refine RawMsgpackParser.wp_get h.msgpackParser ?_ hE
  intro m' q hq hframe
  exact hQ m' _ (h.withMsgpackParser hq hframe)

/-- **The parser keeps its cursors in order**, unless a sum wraps around. -/
theorem verified {parse : Bytes → Verdict} (hlimit : limit + D.dStreamOutSize < 2 ^ 64)
    (hparse : ∀ xs n, parse xs = .complete n → n ≤ xs.length) :
    (streamingParser D limit parse).Verified
      (fun m p prepared => ∃ B P, Inv limit 0 prepared m p B P) Cursors buffered where
  cursors h := by
    obtain ⟨B, P, h⟩ := h
    exact h.cursors
  perform {m p prepared e} h he hfits := by
    obtain ⟨B, P, h⟩ := h
    cases e with
    | prepareBuffer size allocation =>
      refine wp_prepareBuffer h hfits ?_ ⟨B, P, h⟩
      intro m' p' B' h'
      exact ⟨B', P, h'⟩
    | write offset bytes =>
      have hroom := h.room
      have hin : p.input.size + offset + bytes.length ≤ B.size := by
        have hbytes : offset + bytes.length ≤ prepared := he
        omega
      simp only [ParserClass.Event.perform, ParserClass.write, Command.wp_bind, wp_this,
        wp_inMemory]
      refine h.buffer.wp_memcpy hin ?_
      intro m' h' hframe
      refine ⟨_, P, { h with buffer := h', msgpackParser := ?_ }⟩
      exact h.msgpackParser.frame hframe h.apart
    | consumed size =>
      refine wp_consumed h (by omega) he ?_
      intro p' h'
      exact ⟨B, P, h'⟩
    | parseNext size allocations =>
      simp only [ParserClass.Event.perform, Command.wp_bind, Command.wp_pure]
      exact wp_parseNext hlimit hparse h he
    | get allocated =>
      simp only [ParserClass.Event.perform, Command.wp_bind, Command.wp_pure]
      refine wp_get h ?_ ⟨B, P, h⟩
      intro m' p' h'
      exact ⟨B, P.get.2, h'⟩
  wraps {m p prepared size allocation} h hsize hwrap := by
    obtain ⟨B, P, h⟩ := h
    refine wp_prepareBuffer_of_wrap h (by omega) hsize hwrap ?_
    intro p' hlt hcursors
    exact Nat.not_lt.mpr hcursors.size hlt
  get {m p prepared allocated} h := by
    obtain ⟨B, P, h⟩ := h
    refine wp_get h ?_ ⟨rfl, rfl⟩
    intro m' p' h'
    obtain ⟨hmessage, -, hrest⟩ :=
      MsgpackStreamingParser.get_spec h.msgpackParser.wf h.msgpackParser.parsed_le
    simp only [buffered]
    rw [h.msgpackParser.buffered_eq, h'.msgpackParser.buffered_eq, hmessage, hrest,
      List.take_append_drop]

end RawZstdParser

/-! ## Runs -/

open ParserClass

/-- **The cursors are in order exactly as long as the sums fit**: along every run of a parser
of either kind that was constructed, callers can rely on it in every state if and only if
no `prepare_buffer` is called with a size that wraps around behind the bytes that are kept.
The allocator gives no block larger than `limit`. -/
theorem cursors_in_order_iff_sums_fit {limit : Nat} {D : DStream} {parse : Bytes → Verdict}
    (hlimit : limit + D.dStreamOutSize < 2 ^ 64)
    (hparse : ∀ xs n, parse xs = .complete n → n ≤ xs.length) :
    (∀ {m : Memory} {allocation : Allocation} {es : List Event} {s t : Session RawMsgpackParser},
      let C := RawMsgpackParser.streamingParser limit parse
      Session.begin (RawMsgpackParser.make limit allocation) m = some s →
      (C.machine s).run s es = some t →
      ((C.machine s).EachState (C.Safe RawMsgpackParser.Cursors RawMsgpackParser.buffered) s es ↔
        (C.machine s).EachStep (fun s e => e.Fits s.parser.consumedBufSize) s es)) ∧
    ∀ {m : Memory} {first second : Allocation} {es : List Event} {s t : Session (RawZstdParser D)},
      let C := RawZstdParser.streamingParser D limit parse
      Session.begin (RawZstdParser.make D limit first second) m = some s →
      (C.machine s).run s es = some t →
      ((C.machine s).EachState (C.Safe RawZstdParser.Cursors RawZstdParser.buffered) s es ↔
        (C.machine s).EachStep (fun s e => e.Fits s.parser.input.size) s es) := by
  constructor
  · intro m allocation es s t C hs hr
    refine (RawMsgpackParser.verified (by omega) hparse).safe_iff_fits ?_ hs hr
    exact RawMsgpackParser.wp_make (fun _ _ P h _ => ⟨P, h⟩) trivial
  · intro m first second es s t C hs hr
    refine (RawZstdParser.verified hlimit hparse).safe_iff_fits ?_ hs hr
    exact RawZstdParser.wp_make (fun _ _ B P h => ⟨B, P, h⟩) (fun _ => trivial)

/-- The library, for frames of stored blocks. -/
def DStream.stored : DStream where
  Context := StoredFrames.Context
  createDCtx := .header []
  dStreamOutSize := StoredFrames.blockSizeMax
  dStreamOutSize_pos := StoredFrames.blockSizeMax_pos
  decompressStream := decodeBy StoredFrames.step
  consumed_le d input capacity := (decodeBy_le d input capacity).1
  output_le d input capacity := (decodeBy_le d input capacity).2

def zeroFilled : Allocation := some fun _ => 0

/-- The largest block that the allocator gives. -/
def blockLimit : Nat := 2 ^ 20

/-- The run along `es` from the constructor on. -/
def runMsgpack (es : List Event) : Option (Session RawMsgpackParser) :=
  (Session.begin (RawMsgpackParser.make blockLimit zeroFilled) {}).bind fun s =>
    ((RawMsgpackParser.streamingParser blockLimit Msgpack.framer.parse).machine s).run s es

def runZstd (es : List Event) : Option (Session (RawZstdParser .stored)) :=
  (Session.begin (RawZstdParser.make .stored blockLimit zeroFilled zeroFilled) {}).bind fun s =>
    ((RawZstdParser.streamingParser .stored blockLimit Msgpack.framer.parse).machine s).run s es

/-- The size of the buffer, and how many bytes of it are kept. -/
def viewMsgpack (s : Session RawMsgpackParser) : Nat × Nat :=
  (s.parser.buffer.size, s.parser.consumedBufSize)

def viewZstd (s : Session (RawZstdParser .stored)) : Nat × Nat :=
  (s.parser.buffer.size, s.parser.input.size)

/-- The ten bytes of the frame of `nil` come in, and what is found in them is handed over. -/
def handedOver : List Event :=
  [.prepareBuffer 10 zeroFilled, .write 0 (StoredFrames.encode [0xc0]),
    .parseNext 10 fun _ => zeroFilled, .get true]

theorem cursors_in_order_iff_sums_fit_handedOver :
    blockLimit + DStream.stored.dStreamOutSize < 2 ^ 64 ∧
      (∃ s t, Session.begin (RawMsgpackParser.make blockLimit zeroFilled) {} = some s ∧
        let C := RawMsgpackParser.streamingParser blockLimit Msgpack.framer.parse
        (C.machine s).run s handedOver = some t ∧ viewMsgpack t = (9, 9) ∧
        (C.machine s).EachState (C.Safe RawMsgpackParser.Cursors RawMsgpackParser.buffered) s
          handedOver) ∧
      ∃ s t,
        Session.begin (RawZstdParser.make .stored blockLimit zeroFilled zeroFilled) {} = some s ∧
        let C := RawZstdParser.streamingParser .stored blockLimit Msgpack.framer.parse
        (C.machine s).run s handedOver = some t ∧ viewZstd t = (0, 0) ∧
        (C.machine s).EachState (C.Safe RawZstdParser.Cursors RawZstdParser.buffered) s
          handedOver := by
  have hlimit : blockLimit + DStream.stored.dStreamOutSize < 2 ^ 64 := by decide
  have hboth := cursors_in_order_iff_sums_fit hlimit fun _ _ h => Msgpack.framer.complete_le h
  refine ⟨hlimit, ?_, ?_⟩
  · have hview : (runMsgpack handedOver).map viewMsgpack = some (9, 9) := by decide +kernel
    have hbegin : (Session.begin (RawMsgpackParser.make blockLimit zeroFilled) {}).map viewMsgpack =
        some (0, 0) := by decide +kernel
    obtain ⟨t, hrun, ht⟩ := Option.map_eq_some_iff.mp hview
    obtain ⟨s, hs, hr⟩ := Option.bind_eq_some_iff.mp hrun
    rw [hs, Option.map_some, Option.some.injEq] at hbegin
    have hzero : s.parser.consumedBufSize = 0 := congrArg Prod.snd hbegin
    refine ⟨s, t, hs, hr, ht, (hboth.1 hs hr).mpr ⟨?_, ?_⟩⟩
    · show s.parser.consumedBufSize + 10 < 2 ^ 64
      omega
    · exact fun _ _ => ⟨trivial, fun _ _ => ⟨trivial, fun _ _ => ⟨trivial, fun _ _ => trivial⟩⟩⟩
  · have hview : (runZstd handedOver).map viewZstd = some (0, 0) := by decide +kernel
    have hbegin : (Session.begin (RawZstdParser.make .stored blockLimit zeroFilled zeroFilled)
        {}).map viewZstd = some (0, 0) := by decide +kernel
    obtain ⟨t, hrun, ht⟩ := Option.map_eq_some_iff.mp hview
    obtain ⟨s, hs, hr⟩ := Option.bind_eq_some_iff.mp hrun
    rw [hs, Option.map_some, Option.some.injEq] at hbegin
    have hzero : s.parser.input.size = 0 := congrArg Prod.snd hbegin
    refine ⟨s, t, hs, hr, ht, (hboth.2 hs hr).mpr ⟨?_, ?_⟩⟩
    · show s.parser.input.size + 10 < 2 ^ 64
      omega
    · exact fun _ _ => ⟨trivial, fun _ _ => ⟨trivial, fun _ _ => ⟨trivial, fun _ _ => trivial⟩⟩⟩

/-- Ten bytes are kept, and a size is asked for that leaves five of them. -/
def wrapped : List Event :=
  [.prepareBuffer 10 zeroFilled, .consumed 10, .prepareBuffer (2 ^ 64 - 5) zeroFilled]

/-- **The sum wraps around**: `prepare_buffer` returns, but there is no room for what was
asked for, and the buffer has become smaller than what is kept in it. -/
theorem prepareBuffer_shrinks_below_kept :
    (∃ t, runMsgpack wrapped = some t ∧ t.parser.buffer.size = 5 ∧
      t.parser.consumedBufSize = 10 ∧
      ¬ RawMsgpackParser.Cursors t.memory t.parser t.prepared) ∧
    ∃ t, runZstd wrapped = some t ∧ t.parser.buffer.size = 5 ∧ t.parser.input.size = 10 ∧
      ¬ RawZstdParser.Cursors t.memory t.parser t.prepared := by
  constructor
  · have hview : (runMsgpack wrapped).map viewMsgpack = some (5, 10) := by decide +kernel
    obtain ⟨t, hrun, ht⟩ := Option.map_eq_some_iff.mp hview
    have hsize : t.parser.buffer.size = 5 := congrArg Prod.fst ht
    have hkept : t.parser.consumedBufSize = 10 := congrArg Prod.snd ht
    refine ⟨t, hrun, hsize, hkept, ?_⟩
    intro hcursors
    have hle := hcursors.consumed
    omega
  · have hview : (runZstd wrapped).map viewZstd = some (5, 10) := by decide +kernel
    obtain ⟨t, hrun, ht⟩ := Option.map_eq_some_iff.mp hview
    have hsize : t.parser.buffer.size = 5 := congrArg Prod.fst ht
    have hkept : t.parser.input.size = 10 := congrArg Prod.snd ht
    refine ⟨t, hrun, hsize, hkept, ?_⟩
    intro hcursors
    have hle := hcursors.size
    omega

end MpRpc.Transport
