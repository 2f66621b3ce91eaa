import Mathlib
import MpRpc.Transport.BufferMemory
import MpRpc.Transport.MsgpackParser

/-!
# ParserClass — `streaming_parser` and its implementations over memory

`streaming_parser` is implemented twice. Its functions work on numbers of type
`std::size_t`, which wrap around, and on blocks that `realloc` moves. A caller prepares
room, writes into it, says how much it has written, and takes messages out; `prepared` is
what it has prepared and not counted yet. `RawMsgpackParser` has the members of
`msgpack_streaming_parser`; as long as no sum wraps around, it does what
`MsgpackStreamingParser` does.
-/

namespace MpRpc.Transport

open Method

/-! ## Numbers of type `std::size_t` -/

/-- `a + b` -/
def addSize (a b : Nat) : Nat := (a + b) % 2 ^ 64

/-- `a - b` -/
def subSize (a b : Nat) : Nat := if b ≤ a then a - b else 2 ^ 64 - (b - a)

theorem addSize_of_lt {a b : Nat} (h : a + b < 2 ^ 64) : addSize a b = a + b := by
  unfold addSize
  exact Nat.mod_eq_of_lt h

/-- A sum that wraps around is smaller than what was added to. -/
theorem addSize_lt_left {a b : Nat} (hb : b < 2 ^ 64) (hwrap : ¬ a + b < 2 ^ 64)
    (ha : a < 2 ^ 64) : addSize a b < a := by
  unfold addSize
  omega

theorem subSize_of_le {a b : Nat} (h : b ≤ a) : subSize a b = a - b := if_pos h

/-- `size` bytes read from `ptr + offset` on. -/
def Memory.load (ptr offset size : Nat) : Command Memory Thrown Bytes := do
  let data ← Heap.read ptr
  if offset + size ≤ data.length then pure ((data.drop offset).take size)
  else Command.undefined

theorem Memory.wp_load {m : Memory} {ptr offset size : Nat} {data : Bytes}
    (h : m.cell ptr = some data) (hin : offset + size ≤ data.length)
    {Q : Bytes → Memory → Prop} {E : Thrown → Memory → Prop} :
    Command.wp (load ptr offset size) Q E m ↔ Q ((data.drop offset).take size) m := by
  simp only [load, Command.wp_bind, Heap.wp_read h, if_pos hin, Command.wp_pure]

/-! ## The class -/

/-- `streaming_parser`: the functions of a class with members `P`. -/
structure ParserClass (P : Type) where
  prepareBuffer : (size : Nat) → Allocation → Method P Unit
  /-- `buffer()`: the block that the pointer points into, and where -/
  buffer : P → Nat × Nat
  consumed : (consumedBufSize : Nat) → Method P Unit
  /-- the allocator's answers are given in advance -/
  parseNext : (consumedBufSize : Nat) → (Nat → Allocation) → Method P Bool
  /-- the flag says whether the memory for the message is allocated -/
  get : (allocated : Bool) → Method P Bytes

namespace ParserClass

variable {P : Type}

/-- The caller writes `bytes` at `buffer() + offset`. -/
def write (C : ParserClass P) (offset : Nat) (bytes : Bytes) : Method P Unit := do
  let p ← this
  inMemory (Memory.memcpy (C.buffer p).1 ((C.buffer p).2 + offset) bytes)

/-- A parser in use. -/
structure Session (P : Type) where
  memory : Memory
  parser : P
  /-- how many bytes are prepared and not counted yet -/
  prepared : Nat := 0

/-- A session begins when the constructor has returned. -/
def Session.begin (make : Command Memory Thrown P) (m : Memory) : Option (Session P) :=
  match make.exec m with
  | some (.ok parser, memory) => some { memory, parser }
  | _ => none

/-- What the constructor gives holds at the beginning. -/
theorem Session.begin_spec {make : Command Memory Thrown P} {m : Memory} {s : Session P}
    (hs : Session.begin make m = some s) {Inv : Memory → P → Nat → Prop}
    (hmake : Command.wp make (fun p m => Inv m p 0) (fun _ _ => True) m) :
    Inv s.memory s.parser s.prepared := by
  unfold Session.begin at hs
  split at hs
  · rename_i hexec
    cases hs
    have hvalue := Command.value_of_wp hmake hexec
    exact hvalue
  · cases hs

/-- The calls. -/
inductive Event where
  | prepareBuffer (size : Nat) (allocation : Allocation)
  | write (offset : Nat) (bytes : Bytes)
  | consumed (consumedBufSize : Nat)
  | parseNext (consumedBufSize : Nat) (allocations : Nat → Allocation)
  | get (allocated : Bool)

namespace Event

/-- Callers write and count only what is prepared. -/
def Admissible (prepared : Nat) : Event → Prop
  | .prepareBuffer size _ => size < 2 ^ 64
  | .write offset bytes => offset + bytes.length ≤ prepared
  | .consumed consumedBufSize => consumedBufSize ≤ prepared
  | .parseNext consumedBufSize _ => consumedBufSize ≤ prepared
  | .get _ => True

instance (prepared : Nat) (e : Event) : Decidable (e.Admissible prepared) := by
  cases e <;> unfold Admissible <;> infer_instance

/-- The call, without its value. -/
def perform (C : ParserClass P) : Event → Method P Unit
  | .prepareBuffer size allocation => C.prepareBuffer size allocation
  | .write offset bytes => C.write offset bytes
  | .consumed consumedBufSize => C.consumed consumedBufSize
  | .parseNext consumedBufSize allocations => do
      let _ ← C.parseNext consumedBufSize allocations
      pure ()
  | .get allocated => do
      let _ ← C.get allocated
      pure ()

/-- What is prepared after the call; one that throws has prepared nothing, but the bytes
are counted. -/
def preparedAfter (prepared : Nat) (result : Except Thrown Unit) : Event → Nat
  | .prepareBuffer size _ =>
      match result with
      | .ok () => size
      | .error _ => prepared
  | .consumed consumedBufSize => prepared - consumedBufSize
  | .parseNext consumedBufSize _ => prepared - consumedBufSize
  | _ => prepared

/-- The sum that `prepare_buffer` computes does not wrap around. -/
def Fits (cursor : Nat) : Event → Prop
  | .prepareBuffer size _ => cursor + size < 2 ^ 64
  | _ => True

end Event

/-- One call; it is not enabled if it is not admissible or if its behaviour is undefined. -/
def step (C : ParserClass P) (s : Session P) (e : Event) : Option (Session P) :=
  if e.Admissible s.prepared then
    ((e.perform C).exec (s.memory, s.parser)).map fun out =>
      { memory := out.2.1
        parser := out.2.2
        prepared := e.preparedAfter s.prepared out.1 }
  else none

def machine (C : ParserClass P) (init : Session P) : Machine (Session P) Event where
  init := init
  step := step C

/-- **What a caller relies on** in a state: the cursors are in order, every admissible call
has an outcome, and `get` takes exactly the message off the bytes that are buffered, or
throws and takes nothing. -/
structure Safe (C : ParserClass P) (Cursors : Memory → P → Nat → Prop)
    (buffered : Memory → P → Bytes) (s : Session P) : Prop where
  cursors : Cursors s.memory s.parser s.prepared
  outcome : ∀ e : Event, e.Admissible s.prepared → ∃ t, step C s e = some t
  get : ∀ allocated,
    (∃ message m p, (C.get allocated).exec (s.memory, s.parser) = some (.ok message, m, p) ∧
      buffered s.memory s.parser = message ++ buffered m p) ∨
    (C.get allocated).exec (s.memory, s.parser) = some (.error .badAlloc, s.memory, s.parser)

/-- **What a proof about an implementation provides**: an invariant that every admissible
call keeps, except that a `prepare_buffer` whose sum wraps around returns with cursors that
are out of order. -/
structure Verified (C : ParserClass P) (Inv Cursors : Memory → P → Nat → Prop)
    (buffered : Memory → P → Bytes) : Prop where
  cursors : ∀ {m p prepared}, Inv m p prepared → Cursors m p prepared
  perform : ∀ {m p prepared} {e : Event}, Inv m p prepared → e.Admissible prepared →
    e.Fits (C.buffer p).2 →
    Command.wp (e.perform C) (fun _ s => Inv s.1 s.2 (e.preparedAfter prepared (.ok ())))
      (fun thrown s => Inv s.1 s.2 (e.preparedAfter prepared (.error thrown))) (m, p)
  wraps : ∀ {m p prepared size} {allocation : Allocation}, Inv m p prepared → size < 2 ^ 64 →
    ¬ (C.buffer p).2 + size < 2 ^ 64 →
    Command.wp (C.prepareBuffer size allocation) (fun _ s => ¬ Cursors s.1 s.2 size)
      (fun _ _ => False) (m, p)
  get : ∀ {m p prepared allocated}, Inv m p prepared →
    Command.wp (C.get allocated) (fun message s => buffered m p = message ++ buffered s.1 s.2)
      (fun thrown s => thrown = .badAlloc ∧ s = (m, p)) (m, p)

namespace Verified

variable {C : ParserClass P} {Inv Cursors : Memory → P → Nat → Prop}
  {buffered : Memory → P → Bytes} {s : Session P} {e : Event}

/-- A call that keeps the invariant. -/
theorem exists_step (h : C.Verified Inv Cursors buffered) (hs : Inv s.memory s.parser s.prepared)
    (he : e.Admissible s.prepared) (hfits : e.Fits (C.buffer s.parser).2) :
    ∃ t, step C s e = some t ∧ Inv t.memory t.parser t.prepared := by
  unfold step
  rw [if_pos he]
  rcases Command.exists_outcome (h.perform hs he hfits) with
    ⟨_, s', hexec, hs'⟩ | ⟨thrown, s', hexec, hs'⟩
  · rw [hexec]
    exact ⟨_, rfl, hs'⟩
  · rw [hexec]
    exact ⟨_, rfl, hs'⟩

/-- A call whose sum wraps around. -/
theorem exists_step_of_wrap (h : C.Verified Inv Cursors buffered)
    (hs : Inv s.memory s.parser s.prepared) (he : e.Admissible s.prepared)
    (hwrap : ¬ e.Fits (C.buffer s.parser).2) :
    ∃ t, step C s e = some t ∧ ¬ Cursors t.memory t.parser t.prepared := by
  cases e with
  | prepareBuffer size allocation =>
    unfold step
    rw [if_pos he]
    have hwp : Command.wp (C.prepareBuffer size allocation)
        (fun _ s => ¬ Cursors s.1 s.2 size) (fun _ _ => False) (s.memory, s.parser) :=
      h.wraps hs he hwrap
    rcases Command.exists_outcome hwp with ⟨_, s', hexec, hs'⟩ | ⟨_, _, _, hfalse⟩
    · show ∃ t, Option.map _ ((C.prepareBuffer size allocation).exec _) = some t ∧ _
      rw [hexec]
      exact ⟨_, rfl, hs'⟩
    · exact hfalse.elim
  | write offset bytes => exact absurd trivial hwrap
  | consumed consumedBufSize => exact absurd trivial hwrap
  | parseNext consumedBufSize allocations => exact absurd trivial hwrap
  | get allocated => exact absurd trivial hwrap

/-- The invariant gives what a caller relies on. -/
theorem safe (h : C.Verified Inv Cursors buffered) (hs : Inv s.memory s.parser s.prepared) :
    C.Safe Cursors buffered s where
  cursors := h.cursors hs
  outcome e he := by
    by_cases hfits : e.Fits (C.buffer s.parser).2
    · obtain ⟨t, ht, -⟩ := h.exists_step hs he hfits
      exact ⟨t, ht⟩
    · obtain ⟨t, ht, -⟩ := h.exists_step_of_wrap hs he hfits
      exact ⟨t, ht⟩
  get allocated := by
    have hwp : Command.wp (C.get allocated)
        (fun message t => buffered s.memory s.parser = message ++ buffered t.1 t.2)
        (fun thrown t => thrown = .badAlloc ∧ t = (s.memory, s.parser)) (s.memory, s.parser) :=
      h.get hs
    rcases Command.exists_outcome hwp with
      ⟨message, ⟨m, p⟩, hexec, hmessage⟩ | ⟨thrown, s', hexec, hthrown, hs'⟩
    · exact .inl ⟨message, m, p, hexec, hmessage⟩
    · rw [hthrown, hs'] at hexec
      exact .inr hexec

theorem admissible_of_step {t : Session P} (hstep : step C s e = some t) :
    e.Admissible s.prepared := by
  unfold step at hstep
  split at hstep
  · assumption
  · cases hstep

/-- **How long a caller can rely on it**: in a run, exactly as long as no `prepare_buffer`
computes a sum that wraps around. -/
theorem safe_iff_fits (h : C.Verified Inv Cursors buffered) {make : Command Memory Thrown P}
    {m : Memory} (hmake : Command.wp make (fun p m => Inv m p 0) (fun _ _ => True) m)
    {es : List Event} {t : Session P} (hs : Session.begin make m = some s)
    (hr : (C.machine s).run s es = some t) :
    (C.machine s).EachState (C.Safe Cursors buffered) s es ↔
      (C.machine s).EachStep (fun s e => e.Fits (C.buffer s.parser).2) s es := by
  have hs : Inv s.memory s.parser s.prepared := Session.begin_spec hs hmake
  refine Machine.eachState_iff_eachStep_of_guard (G := fun s => Inv s.memory s.parser s.prepared)
    (fun s hs => h.safe hs) ?_ ?_ hs hr
  · intro s e t hs hstep hfits
    obtain ⟨t', ht', hinv⟩ := h.exists_step hs (admissible_of_step hstep) hfits
    cases ht'.symm.trans hstep
    exact hinv
  · intro s e t hs hstep hwrap hsafe
    obtain ⟨t', ht', hbad⟩ := h.exists_step_of_wrap hs (admissible_of_step hstep) hwrap
    cases ht'.symm.trans hstep
    exact hbad hsafe.cursors

end Verified

end ParserClass

/-! ## A buffer in use -/

/-- The object stands for `B`, which is well-formed and of a size that the allocator
gives. -/
structure RawBuffer.Holds (limit : Nat) (m : Memory) (b : RawBuffer) (B : Buffer) : Prop
    extends RawBuffer.Represents m b B where
  wf : B.Wf
  min : 1024 ≤ B.capacity
  max : B.capacity ≤ limit

namespace RawBuffer.Holds

variable {limit : Nat} {m m' : Memory} {b b' : RawBuffer} {B B' : Buffer}

/-- Work on another block leaves the object alone. -/
theorem frame (h : Holds limit m b B) {p p' : Nat} (hframe : Frame m p m' p') (hne : b.data ≠ p) :
    Holds limit m' b B :=
  ⟨⟨hframe.cells _ _ hne h.block, h.size, h.capacity⟩, h.wf, h.min, h.max⟩

theorem sound (h : Holds limit m b B) : Sound m b := h.toRepresents.sound h.wf h.min

/-- A resized buffer. -/
theorem resize (h : Holds limit m b B) {size : Nat} {answer : Allocation}
    (hresize : B.resize size answer = some B') (h' : Represents m' b' B')
    (hmax : B'.capacity ≤ Max.max B.capacity limit) : Holds limit m' b' B' where
  toRepresents := h'
  wf := (Buffer.resize_spec hresize).2.1
  min := Nat.le_trans h.min (Buffer.capacity_le_resize hresize)
  max := by
    have := h.max
    omega

/-- A buffer that bytes are taken from. -/
theorem consume (h : Holds limit m b B) {size : Nat} (h' : Represents m' b' (B.consume size)) :
    Holds limit m' b' (B.consume size) where
  toRepresents := h'
  wf := (Buffer.consume_spec h.wf size).2.1
  min := by
    rw [Buffer.capacity_consume h.wf]
    exact h.min
  max := by
    rw [Buffer.capacity_consume h.wf]
    exact h.max

/-- A buffer that was written into. -/
theorem store (h : Holds limit m b B) {offset : Nat} {bytes : Bytes}
    (hin : offset + bytes.length ≤ B.size) (h' : Represents m' b' (B.store offset bytes)) :
    Holds limit m' b' (B.store offset bytes) where
  toRepresents := h'
  wf := Buffer.wf_store h.wf offset bytes
  min := Nat.le_trans h.min (Buffer.capacity_le_store B offset bytes)
  max := by
    rw [Buffer.capacity_store (Nat.le_trans hin h.wf)]
    exact h.max

/-- **Bytes written through a pointer** into the bytes in use. -/
theorem wp_memcpy (h : Holds limit m b B) {offset : Nat} {bytes : Bytes}
    (hin : offset + bytes.length ≤ B.size) {Q : Unit → Memory → Prop} {E : Thrown → Memory → Prop}
    (hQ : ∀ m', Holds limit m' b (B.store offset bytes) → Frame m b.data m' b.data → Q () m') :
    Command.wp (Memory.memcpy b.data offset bytes) Q E m := by
  have hwrite :
      Command.wp (write offset bytes) (fun _ s => Q () s.1) (fun _ _ => False) (m, b) := by
    refine wp_write h.toRepresents (Nat.le_trans hin h.wf) ?_
    intro m' h' hframe
    exact hQ m' (h.store hin h') hframe
  simp only [write, Command.wp_bind, wp_this, wp_inMemory] at hwrite
  exact Command.wp_mono hwrite (fun _ _ hq => hq) (fun _ _ hfalse => hfalse.elim)

/-- A buffer that was constructed. -/
theorem ofSize {size : Nat} {answer : Allocation} (hmade : Buffer.ofSize size answer = some B)
    (h : Represents m b B) (hmax : B.capacity ≤ limit) : Holds limit m b B where
  toRepresents := h
  wf := (Buffer.ofSize_spec hmade).2.1
  min := (Buffer.ofSize_spec hmade).2.2
  max := hmax

end RawBuffer.Holds

/-! ## `msgpack_streaming_parser` -/

/-- The members of `msgpack_streaming_parser`. -/
structure RawMsgpackParser where
  buffer : RawBuffer
  consumedBufSize : Nat := 0
  parsedBufSize : Nat := 0
  /-- no member: whether a subtraction of sizes has gone below zero -/
  underflowed : Bool := false

namespace RawMsgpackParser

def onBuffer {α : Type} (c : Method RawBuffer α) : Method RawMsgpackParser α :=
  inMember buffer (fun b p => { p with buffer := b }) c

/-- The constructor. -/
def make (limit : Nat) (allocation : Allocation) : Command Memory Thrown RawMsgpackParser := do
  let buffer ← RawBuffer.ofSize limit 0 allocation
  pure { buffer }

/-- `prepare_buffer` -/
def prepareBuffer (limit size : Nat) (allocation : Allocation) : Method RawMsgpackParser Unit := do
  let p ← this
  onBuffer (RawBuffer.resize limit (addSize p.consumedBufSize size) allocation)

/-- `consumed` -/
def consumed (consumedBufSize : Nat) : Method RawMsgpackParser Unit :=
  assign fun p => { p with consumedBufSize := addSize p.consumedBufSize consumedBufSize }

/-- `parse_next`, where `parse` is `::msgpack::parse` with the visitor. -/
def parseNext (parse : Bytes → Verdict) (consumedBufSize : Nat) : Method RawMsgpackParser Bool := do
  consumed consumedBufSize
  let p ← this
  let bytes ← inMemory (Memory.load p.buffer.data 0 p.consumedBufSize)
  match parse bytes with
  | .complete offset => do
      assign fun p => { p with parsedBufSize := offset }
      pure true
  | .incomplete => pure false
  | .error => Command.throw (.exception MsgpackStreamingParser.parseError)

/-- `get`; the message is copied before the buffer changes. -/
def get (allocated : Bool) : Method RawMsgpackParser Bytes := do
  let p ← this
  let data ← inMemory (Memory.load p.buffer.data 0 p.parsedBufSize)
  if allocated then do
    onBuffer (RawBuffer.consume p.parsedBufSize)
    assign fun p =>
      { p with
        consumedBufSize := subSize p.consumedBufSize p.parsedBufSize
        underflowed := p.underflowed || decide (p.consumedBufSize < p.parsedBufSize) }
    assign fun p => { p with parsedBufSize := 0 }
    pure data
  else Command.throw .badAlloc

/-- The class. -/
def streamingParser (limit : Nat) (parse : Bytes → Verdict) : ParserClass RawMsgpackParser where
  prepareBuffer := prepareBuffer limit
  buffer p := (p.buffer.data, p.consumedBufSize)
  consumed := consumed
  parseNext consumedBufSize _ := parseNext parse consumedBufSize
  get := get

/-- The bytes received and not handed over yet. -/
def buffered (m : Memory) (p : RawMsgpackParser) : Bytes :=
  ((m.cell p.buffer.data).getD []).take p.consumedBufSize

/-- **The cursors are in order**, and behind them there is room for what is prepared. -/
structure Cursors (m : Memory) (p : RawMsgpackParser) (prepared : Nat) : Prop where
  parsed : p.parsedBufSize ≤ p.consumedBufSize
  consumed : p.consumedBufSize ≤ p.buffer.size
  room : p.consumedBufSize + prepared ≤ p.buffer.size
  buffer : RawBuffer.Sound m p.buffer
  underflowed : p.underflowed = false

/-- The members stand for the parser `P`. -/
structure Inv (limit : Nat) (m : Memory) (p : RawMsgpackParser) (P : MsgpackStreamingParser)
    (prepared : Nat) : Prop where
  buffer : RawBuffer.Holds limit m p.buffer P.buffer
  consumed : p.consumedBufSize = P.consumedBufSize
  parsed : p.parsedBufSize = P.parsedBufSize
  underflowed : p.underflowed = false
  parsed_le : P.parsedBufSize ≤ P.consumedBufSize
  room : P.consumedBufSize + prepared ≤ P.buffer.size

variable {limit prepared : Nat} {m : Memory} {p : RawMsgpackParser} {P : MsgpackStreamingParser}

theorem Inv.wf (h : Inv limit m p P prepared) : P.Wf where
  buffer := h.buffer.wf
  consumed := Nat.le_trans (Nat.le_add_right _ _) h.room

theorem Inv.room_le_limit (h : Inv limit m p P prepared) : P.consumedBufSize + prepared ≤ limit :=
  Nat.le_trans h.room (Nat.le_trans h.buffer.wf h.buffer.max)

theorem Inv.cursors (h : Inv limit m p P prepared) : Cursors m p prepared where
  parsed := by
    rw [h.parsed, h.consumed]
    exact h.parsed_le
  consumed := by
    rw [h.consumed, h.buffer.size]
    exact h.wf.consumed
  room := by
    rw [h.consumed, h.buffer.size]
    exact h.room
  buffer := h.buffer.sound
  underflowed := h.underflowed

theorem Inv.buffered_eq (h : Inv limit m p P prepared) : buffered m p = P.buffered := by
  simp only [buffered, h.buffer.block, h.consumed, Option.getD_some,
    MsgpackStreamingParser.buffered]

theorem Inv.mono (h : Inv limit m p P prepared) {fewer : Nat} (hle : fewer ≤ prepared) :
    Inv limit m p P fewer :=
  { h with room := Nat.le_trans (Nat.add_le_add_left hle _) h.room }

/-- Work on another block leaves the parser alone. -/
theorem Inv.frame (h : Inv limit m p P prepared) {m' : Memory} {q q' : Nat}
    (hframe : RawBuffer.Frame m q m' q') (hne : p.buffer.data ≠ q) : Inv limit m' p P prepared :=
  { h with buffer := h.buffer.frame hframe hne }

/-- **The constructor** makes a parser without bytes in a block of its own. -/
theorem wp_make {allocation : Allocation} {Q : RawMsgpackParser → Memory → Prop}
    {E : Thrown → Memory → Prop}
    (hQ : ∀ m' p' P', Inv limit m' p' P' 0 → RawBuffer.Frame m m.next m' p'.buffer.data → Q p' m')
    (hE : E .badAlloc m) : Command.wp (make limit allocation) Q E m := by
  unfold make
  simp only [Command.wp_bind, Command.wp_pure]
  refine RawBuffer.wp_ofSize ?_ hE
  intro m' b' B' answer hmade h hframe hmax
  refine hQ m' ⟨b', 0, 0, false⟩ ⟨B', 0, 0⟩ ?_ hframe
  exact ⟨.ofSize hmade h hmax, rfl, rfl, rfl, Nat.le_refl _, Nat.zero_le _⟩

/-- **`prepare_buffer`** does what `MsgpackStreamingParser.prepareBuffer` does, or throws and
has changed nothing. -/
theorem wp_prepareBuffer {size : Nat} {allocation : Allocation} (h : Inv limit m p P prepared)
    (hfits : p.consumedBufSize + size < 2 ^ 64)
    {Q : Unit → Memory × RawMsgpackParser → Prop} {E : Thrown → Memory × RawMsgpackParser → Prop}
    (hQ : ∀ m' p' P' answer, P.prepareBuffer size answer = some P' → Inv limit m' p' P' size →
      RawBuffer.Frame m p.buffer.data m' p'.buffer.data → Q () (m', p'))
    (hE : E .badAlloc (m, p)) : Command.wp (prepareBuffer limit size allocation) Q E (m, p) := by
  unfold prepareBuffer onBuffer
  simp only [Command.wp_bind, wp_this, wp_inMember, addSize_of_lt hfits]
  refine RawBuffer.wp_resize h.buffer.toRepresents (Nat.lt_of_lt_of_le (by decide) h.buffer.min)
    ?_ hE
  intro m' b' B' answer hresize h' hframe hmax
  rw [h.consumed] at hresize
  obtain ⟨hsize, -, -⟩ := Buffer.resize_spec hresize
  refine hQ m' _ { P with buffer := B' } answer ?_ ?_ hframe
  · rw [MsgpackStreamingParser.prepareBuffer, hresize]
    rfl
  · exact ⟨h.buffer.resize hresize h' hmax, h.consumed, h.parsed, h.underflowed, h.parsed_le,
      Nat.le_of_eq hsize.symm⟩

/-- **A sum that wraps around** makes the buffer smaller than the bytes it has to keep. -/
theorem wp_prepareBuffer_of_wrap {size : Nat} {allocation : Allocation}
    (h : Inv limit m p P prepared) (hlimit : limit < 2 ^ 64) (hsize : size < 2 ^ 64)
    (hwrap : ¬ p.consumedBufSize + size < 2 ^ 64)
    {Q : Unit → Memory × RawMsgpackParser → Prop} {E : Thrown → Memory × RawMsgpackParser → Prop}
    (hQ : ∀ p' : RawMsgpackParser, p'.buffer.size < p'.consumedBufSize → Q () (m, p')) :
    Command.wp (prepareBuffer limit size allocation) Q E (m, p) := by
  have hroom := h.room_le_limit
  have hconsumed := h.consumed
  have hlt := addSize_lt_left hsize hwrap (by omega)
  have hle : addSize p.consumedBufSize size ≤ p.buffer.capacity := by
    have hwf := h.wf.le_capacity
    have hcapacity := h.buffer.capacity
    omega
  unfold prepareBuffer onBuffer RawBuffer.resize
  simp only [Command.wp_bind, wp_this, wp_inMember, if_pos hle, wp_assign]
  refine hQ _ ?_
  exact hlt

/-- **Bytes written into the prepared room.** -/
theorem wp_memcpy {offset : Nat} {bytes : Bytes} (h : Inv limit m p P prepared)
    (hin : offset + bytes.length ≤ prepared) {Q : Unit → Memory → Prop}
    {E : Thrown → Memory → Prop}
    (hQ : ∀ m' P', Inv limit m' p P' prepared → P'.consumedBufSize = P.consumedBufSize →
      RawBuffer.Frame m p.buffer.data m' p.buffer.data → Q () m') :
    Command.wp (Memory.memcpy p.buffer.data (p.consumedBufSize + offset) bytes) Q E m := by
  have hroom := h.room
  have hin' : p.consumedBufSize + offset + bytes.length ≤ P.buffer.size := by
    rw [h.consumed]
    omega
  refine h.buffer.wp_memcpy hin' ?_
  intro m' h' hframe
  refine hQ m' { P with buffer := P.buffer.store (p.consumedBufSize + offset) bytes } ?_ rfl hframe
  exact ⟨h', h.consumed, h.parsed, h.underflowed, h.parsed_le, h.room⟩

/-- **`consumed`** counts what is prepared. -/
theorem wp_consumed {size : Nat} (h : Inv limit m p P prepared) (hlimit : limit < 2 ^ 64)
    (hsize : size ≤ prepared) {Q : Unit → Memory × RawMsgpackParser → Prop}
    {E : Thrown → Memory × RawMsgpackParser → Prop}
    (hQ : ∀ p', Inv limit m p' (P.consumed size) (prepared - size) → p'.buffer = p.buffer →
      Q () (m, p')) :
    Command.wp (consumed size) Q E (m, p) := by
  have hroom := h.room
  have hlimit' := h.room_le_limit
  have hconsumed := h.consumed
  have hparsed := h.parsed_le
  have hfits : p.consumedBufSize + size < 2 ^ 64 := by omega
  unfold consumed
  simp only [wp_assign, addSize_of_lt hfits]
  refine hQ _ ⟨h.buffer, ?_, h.parsed, h.underflowed, ?_, ?_⟩ rfl
  · exact congrArg (· + size) hconsumed
  · show P.parsedBufSize ≤ P.consumedBufSize + size
    omega
  · show P.consumedBufSize + size + (prepared - size) ≤ P.buffer.size
    omega

/-- **`parse_next`** counts the bytes and moves the end of the message inside of them, or
throws and has moved nothing. -/
theorem wp_parseNext {parse : Bytes → Verdict}
    (hparse : ∀ xs n, parse xs = .complete n → n ≤ xs.length) {size : Nat}
    (h : Inv limit m p P prepared) (hlimit : limit < 2 ^ 64) (hsize : size ≤ prepared)
    {Q : Bool → Memory × RawMsgpackParser → Prop} {E : Thrown → Memory × RawMsgpackParser → Prop}
    (hQ : ∀ result p' P', Inv limit m p' P' (prepared - size) → p'.buffer = p.buffer →
      Q result (m, p'))
    (hE : ∀ p' P', Inv limit m p' P' (prepared - size) → p'.buffer = p.buffer →
      E (.exception MsgpackStreamingParser.parseError) (m, p')) :
    Command.wp (parseNext parse size) Q E (m, p) := by
  unfold parseNext
  simp only [Command.wp_bind]
  refine wp_consumed h hlimit hsize ?_
  intro p' h' hbuffer
  have hin : 0 + p'.consumedBufSize ≤ (P.consumed size).buffer.data.length := by
    rw [Nat.zero_add, h'.consumed]
    exact h'.wf.le_capacity
  have hbuffered : ((P.consumed size).buffer.data.drop 0).take p'.consumedBufSize =
      (P.consumed size).buffered := by
    rw [List.drop_zero, h'.consumed, MsgpackStreamingParser.buffered]
  simp only [wp_this, wp_inMemory, Memory.wp_load h'.buffer.block hin, hbuffered]
  cases hverdict : parse (P.consumed size).buffered with
  | complete offset =>
    have hle := hparse _ _ hverdict
    rw [h'.wf.length_buffered] at hle
    simp only [Command.wp_bind, wp_assign, Command.wp_pure]
    exact hQ true _ { P.consumed size with parsedBufSize := offset }
      ⟨h'.buffer, h'.consumed, rfl, h'.underflowed, hle, h'.room⟩ hbuffer
  | incomplete => exact hQ false p' _ h' hbuffer
  | error => exact hE p' _ h' hbuffer

/-- **`get`** does what `MsgpackStreamingParser.get` does, or throws and has changed
nothing. -/
theorem wp_get {allocated : Bool} (h : Inv limit m p P prepared)
    {Q : Bytes → Memory × RawMsgpackParser → Prop} {E : Thrown → Memory × RawMsgpackParser → Prop}
    (hQ : ∀ m' p', Inv limit m' p' P.get.2 prepared →
      RawBuffer.Frame m p.buffer.data m' p'.buffer.data → Q P.get.1 (m', p'))
    (hE : E .badAlloc (m, p)) : Command.wp (get allocated) Q E (m, p) := by
  have hparsed := h.parsed_le
  have hroom := h.room
  have hin : 0 + P.parsedBufSize ≤ P.buffer.data.length := by
    have hcapacity : P.consumedBufSize ≤ P.buffer.data.length := h.wf.le_capacity
    omega
  unfold get onBuffer
  simp only [Command.wp_bind, wp_this, wp_inMemory, h.parsed,
    Memory.wp_load h.buffer.block hin, List.drop_zero]
  cases allocated with
  | false =>
    simp only [Bool.false_eq_true, if_false, Command.wp_throw]
    exact hE
  | true =>
    simp only [if_true, Command.wp_bind, wp_inMember]
    refine RawBuffer.wp_consume h.buffer.toRepresents h.buffer.wf ?_
    intro m' b' h' hframe _
    obtain ⟨hsize, -, -⟩ := Buffer.consume_spec h.buffer.wf P.parsedBufSize
    simp only [wp_assign, Command.wp_pure]
    refine hQ m' _ ?_ hframe
    refine ⟨h.buffer.consume h', ?_, rfl, ?_, Nat.zero_le _, ?_⟩
    · show subSize p.consumedBufSize p.parsedBufSize = P.consumedBufSize - P.parsedBufSize
      rw [h.consumed, h.parsed, subSize_of_le hparsed]
    · show (p.underflowed || decide (p.consumedBufSize < p.parsedBufSize)) = false
      rw [h.underflowed, h.consumed, h.parsed, decide_eq_false (Nat.not_lt.mpr hparsed)]
      rfl
    · show P.consumedBufSize - P.parsedBufSize + prepared ≤ (P.buffer.consume P.parsedBufSize).size
      omega

/-- **The parser keeps its cursors in order**, unless a sum wraps around. -/
theorem verified {parse : Bytes → Verdict} (hlimit : limit < 2 ^ 64)
    (hparse : ∀ xs n, parse xs = .complete n → n ≤ xs.length) :
    (streamingParser limit parse).Verified (fun m p prepared => ∃ P, Inv limit m p P prepared)
      Cursors buffered where
  cursors h := by
    obtain ⟨P, h⟩ := h
    exact h.cursors
  perform {m p prepared e} h he hfits := by
    obtain ⟨P, h⟩ := h
    cases e with
    | prepareBuffer size allocation =>
      refine wp_prepareBuffer h hfits ?_ ⟨P, h⟩
      intro m' p' P' answer _ h' _
      exact ⟨P', h'⟩
    | write offset bytes =>
      simp only [ParserClass.Event.perform, ParserClass.write, Command.wp_bind, wp_this,
        wp_inMemory]
      refine wp_memcpy h he ?_
      intro m' P' h' _ _
      exact ⟨P', h'⟩
    | consumed size =>
      refine wp_consumed h hlimit he ?_
      intro p' h' _
      exact ⟨_, h'⟩
    | parseNext size allocations =>
      simp only [ParserClass.Event.perform, Command.wp_bind, Command.wp_pure]
      refine wp_parseNext hparse h hlimit he ?_ ?_
      · intro result p' P' h' _
        exact ⟨P', h'⟩
      · intro p' P' h' _
        exact ⟨P', h'⟩
    | get allocated =>
      simp only [ParserClass.Event.perform, Command.wp_bind, Command.wp_pure]
      refine wp_get h ?_ ⟨P, h⟩
      intro m' p' h' _
      exact ⟨_, h'⟩
  wraps {m p prepared size allocation} h hsize hwrap := by
    obtain ⟨P, h⟩ := h
    refine wp_prepareBuffer_of_wrap h hlimit hsize hwrap ?_
    intro p' hlt hcursors
    exact Nat.not_lt.mpr hcursors.consumed hlt
  get {m p prepared allocated} h := by
    obtain ⟨P, h⟩ := h
    refine wp_get h ?_ ⟨rfl, rfl⟩
    intro m' p' h' _
    obtain ⟨hmessage, -, hrest⟩ := MsgpackStreamingParser.get_spec h.wf h.parsed_le
    rw [h.buffered_eq, h'.buffered_eq, hmessage, hrest, List.take_append_drop]

end RawMsgpackParser

end MpRpc.Transport
