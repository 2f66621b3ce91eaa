import MpRpc.Machine
import MpRpc.Transport.ZstdReading

/-!
# ZstdProgress — when the parser asks for more bytes

`stream_socket_helper` takes `false` from `parse_next` to mean that bytes have to
come from the socket. The loop of `zstd_streaming_parser::parse_next` ends with the
input used up, or after a call of `ZSTD_decompressStream` that did not fill its
output, and such a call may also have come to the end of a frame. What is behind the
frame then stays in the input, and whether `parse_next` returns `true` is left to the
inner parser, which knows nothing of the input.

The stream is any sequence of frames, also of empty ones; a content need not be a
message.
-/

namespace MpRpc.Transport

variable {Z : Zstd} {F : Framer UInt8}

/-- A `zstd_streaming_parser`, the bytes that its socket still has to deliver, and what
the last `parse_next` returned, until bytes are counted after it. -/
structure ZstdReader (Z : Zstd) where
  parser : ZstdStreamingParser Z
  incoming : Bytes
  result : Option (Except ErrorInfo Bool) := none

namespace ZstdReader

inductive Event where
  /-- `numBytes` bytes were received into a buffer with `room` more; they are given to
  `parse_next`, or only counted -/
  | read (numBytes room : Nat) (parse : Bool)
  /-- `parse_next(0)` -/
  | parseNext

/-- `parse_next`, and `get` if it returns `true`. -/
def parse (F : Framer UInt8) (fresh : Nat → UInt8) (fuel : Nat) (s : ZstdReader Z)
    (numBytes : Nat) : Option (ZstdReader Z) :=
  match s.parser.parseNext F (some fresh) fuel numBytes with
  | none => none
  | some (.ok true, parser) =>
      some { s with parser := parser.get.2, result := some (.ok true) }
  | some (result, parser) => some { s with parser := parser, result := some result }

def step (F : Framer UInt8) (fresh : Nat → UInt8) (fuel : Nat) (s : ZstdReader Z) :
    Event → Option (ZstdReader Z)
  | .parseNext => s.parse F fresh fuel 0
  | .read numBytes room parse =>
      if numBytes ≤ s.incoming.length then
        match s.parser.prepareBuffer (numBytes + room) (some fresh) with
        | none => none
        | some parser =>
            let s := { s with
              parser := parser.store (s.incoming.take numBytes)
              incoming := s.incoming.drop numBytes }
            if parse then s.parse F fresh fuel numBytes
            else some { s with parser := s.parser.consumed numBytes, result := none }
      else none

/-- A parser whose socket will deliver the bytes `stream`. -/
def machine (F : Framer UInt8) (Z : Zstd) (fresh : Nat → UInt8) (fuel : Nat) (stream : Bytes) :
    Machine (ZstdReader Z) Event where
  init := { parser := .make Z fresh, incoming := stream }
  step := step F fresh fuel

/-- `parse_next` has returned `false`, and the input begins with a complete frame. -/
def Stalled (s : ZstdReader Z) : Prop :=
  s.result = some (.ok false) ∧ Z.decoder.BeginsWithFrame s.parser.unread

/-- If the input holds the rest of the current frame and a complete frame behind it, then
what is decompressed at the end of the current frame, and not handed over, is not the
beginning of an object that goes on. -/
def Aligned (F : Framer UInt8) (context : Z.decoder.Context) (input decompressed : Bytes) : Prop :=
  ∀ out, Z.decoder.HoldsNext context input out → F.parse (decompressed ++ out) ≠ .incomplete

/-- If the calls of the loop end in front of a complete frame, then what is decompressed
there, and not handed over, is not the beginning of an object that goes on. -/
def Clear (F : Framer UInt8) (context : Z.decoder.Context) (input decompressed : Bytes) : Prop :=
  ∀ out, Z.decoder.EndsBefore Z.dStreamOutSize context input out →
    F.parse (decompressed ++ out) ≠ .incomplete

end ZstdReader

/-- The condition holds of the context, the input and the decompressed bytes of the parser. -/
def ZstdStreamingParser.Meets (p : ZstdStreamingParser Z)
    (P : Z.decoder.Context → Bytes → Bytes → Prop) : Prop :=
  P p.context p.unread p.msgpackParser.buffered

namespace ZstdReader

/-- The condition holds when `parse_next` is called in this event. -/
def AtCall (P : Z.decoder.Context → Bytes → Bytes → Prop) (s : ZstdReader Z) : Event → Prop
  | .parseNext => s.parser.Meets P
  | .read numBytes _ true =>
      P s.parser.context (s.parser.unread ++ s.incoming.take numBytes)
        s.parser.msgpackParser.buffered
  | .read _ _ false => True

/-- The input is aligned when `parse_next` is called in this event. -/
def AlignedAt (F : Framer UInt8) (s : ZstdReader Z) (e : Event) : Prop := s.AtCall (Aligned F) e

/-- The way is clear when `parse_next` is called in this event. -/
def ClearAt (F : Framer UInt8) (s : ZstdReader Z) (e : Event) : Prop := s.AtCall (Clear F) e

end ZstdReader

namespace ZstdStreamingParser

open ZstdReader (Aligned Clear)

variable {p : ZstdStreamingParser Z} {unseen part : Bytes} {contents : List Bytes}

/-- Where the parser stands in the stream: `contents` are those of the frames to come, of
the first of which it has decompressed `part`. -/
structure Positioned (p : ZstdStreamingParser Z) (unseen part : Bytes) (contents : List Bytes) :
    Prop where
  wf : p.Wf
  ahead : Z.decoder.Ahead p.context part (p.unread ++ unseen) contents

theorem not_beginsWithFrame_nil : ¬ Z.decoder.BeginsWithFrame [] := by
  rintro ⟨content, frame, more, hframe, hnil⟩
  exact FrameDecoder.frame_ne_nil Z.boundary_createDCtx hframe
    (List.append_eq_nil_iff.mp hnil.symm).1

/-! ## Two conditions -/

/-- An answer that is not "more input" stays one when more is decompressed. -/
theorem parse_append_ne_incomplete {xs : Bytes} (h : F.parse xs ≠ .incomplete) (ys : Bytes) :
    F.parse (xs ++ ys) ≠ .incomplete := by
  cases hp : F.parse xs with
  | incomplete => exact absurd hp h
  | complete n => simp [F.complete_append hp ys]
  | error => simp [F.error_append hp ys]

theorem Positioned.clear_of_aligned (h : p.Positioned unseen part contents)
    (haligned : p.Meets (Aligned F)) : p.Meets (Clear F) := by
  intro out hends
  obtain ⟨out₀, ⟨more, rfl⟩, hnext⟩ :=
    hends.exists_holdsNext not_beginsWithFrame_nil Z.dStreamOutSize_pos h.ahead
  rw [← List.append_assoc]
  exact parse_append_ne_incomplete (haligned out₀ hnext) more

/-- A frame with less content than one call can give out ends the loop. -/
theorem Positioned.aligned_of_clear (h : p.Positioned unseen part contents)
    (hshort : ∀ c ∈ contents, c.length < Z.dStreamOutSize) (hclear : p.Meets (Clear F)) :
    p.Meets (Aligned F) := by
  intro out hnext
  refine hclear out (hnext.endsBefore ?_)
  obtain ⟨content, rest, more, hframe, -, hunread⟩ := hnext
  have hne : p.unread ++ unseen ≠ [] := by
    rw [hunread, List.append_assoc]
    exact List.append_ne_nil_of_left_ne_nil (Z.decoder.rest_ne_nil hframe) _
  obtain ⟨out', rest', later, frames, hframe', -, hstream, rfl⟩ := h.ahead.exists_inFrame hne
  rw [hunread, List.append_assoc] at hstream
  obtain ⟨-, rfl⟩ := FrameDecoder.inFrame_unique hframe hframe' hstream
  have hcontent := hshort _ List.mem_cons_self
  rw [List.length_append] at hcontent
  omega

/-! ## The loop -/

/-- **One round of the loop**; it ends a frame if it neither uses up the input nor fills
its output. -/
theorem Positioned.round (h : p.Positioned unseen part contents)
    (hlt : p.inputPos < p.inputSize) {msgpackParser : MsgpackStreamingParser}
    {allocation : Allocation}
    (hprepare : p.msgpackParser.prepareBuffer Z.dStreamOutSize allocation = some msgpackParser)
    {call : Decoded Z.decoder.Context UInt8}
    (hcall : call = Z.decoder.decode p.context p.unread Z.dStreamOutSize) :
    call.error = none ∧ call.output.length ≤ Z.dStreamOutSize ∧
      (p.afterCall msgpackParser call).unread = p.unread.drop call.consumed ∧
      (p.afterCall msgpackParser call).msgpackParser.buffered =
        p.msgpackParser.buffered ++ call.output ∧
      (p.unread.drop call.consumed ≠ [] → call.output.length < Z.dStreamOutSize →
        Z.decoder.Boundary call.context) ∧
      ∃ part' contents', (p.afterCall msgpackParser call).Positioned unseen part' contents' ∧
        contents' <:+ contents ∧
        contents'.flatten.length + part.length + call.output.length =
          contents.flatten.length + part'.length := by
  have hne := h.wf.unread_ne_nil hlt
  obtain ⟨herror, hwf, hunread, hbuffered, hmove⟩ := h.wf.round h.ahead hlt hprepare hcall
  obtain ⟨-, -, houtput, -⟩ := h.ahead.decode rfl hne Z.dStreamOutSize_pos hcall
  refine ⟨herror, houtput, hunread, hbuffered, ?_, ?_⟩
  · intro hleft
    refine h.ahead.boundary_of_decode rfl hne Z.dStreamOutSize_pos hcall ?_
    by_contra hall
    exact hleft (List.drop_eq_nil_of_le (Nat.le_of_not_lt hall))
  · rcases hmove with ⟨hahead, -⟩ | ⟨later, rfl, hahead⟩
    · refine ⟨part ++ call.output, contents, ⟨hwf, hahead⟩, List.suffix_rfl, ?_⟩
      rw [List.length_append]
      omega
    · refine ⟨[], later, ⟨hwf, hahead⟩, List.suffix_cons _ _, ?_⟩
      simp only [List.flatten_cons, List.length_append, List.length_nil]
      omega

theorem Wf.unread_eq_nil_of_le (h : p.Wf) (hle : p.inputSize ≤ p.inputPos) : p.unread = [] := by
  apply List.eq_nil_of_length_eq_zero
  rw [h.length_unread]
  omega

/-- The loop has gone from `p` to `q` and decompressed `out`. What is left in the input is
behind a frame. -/
structure Left (p q : ZstdStreamingParser Z) (out : Bytes) : Prop where
  buffered : q.msgpackParser.buffered = p.msgpackParser.buffered ++ out
  boundary : q.unread ≠ [] → Z.decoder.Boundary q.context
  endsBefore : ∀ out', Z.decoder.EndsBefore Z.dStreamOutSize p.context p.unread out' ↔
    out' = out ∧ Z.decoder.BeginsWithFrame q.unread

/-- An input that is used up ends nowhere. -/
theorem Left.of_nil (hnil : p.unread = []) : Left p p [] where
  buffered := (List.append_nil _).symm
  boundary hne := absurd hnil hne
  endsBefore out' := by
    rw [hnil]
    refine iff_of_false ?_ ?_
    · intro h
      exact h.input_ne_nil not_beginsWithFrame_nil rfl
    · rintro ⟨-, hbegins⟩
      exact not_beginsWithFrame_nil hbegins

section Round

variable {r q : ZstdStreamingParser Z} {call : Decoded Z.decoder.Context UInt8} {out : Bytes}

/-- The loop is left after a round. -/
theorem Left.of_last (hcall : call = Z.decoder.decode p.context p.unread Z.dStreamOutSize)
    (hcontext : r.context = call.context) (hunread : r.unread = p.unread.drop call.consumed)
    (hbuffered : r.msgpackParser.buffered = p.msgpackParser.buffered ++ call.output)
    (houtput : call.output.length ≤ Z.dStreamOutSize)
    (hboundary : r.unread ≠ [] → call.output.length < Z.dStreamOutSize →
      Z.decoder.Boundary call.context)
    (hend : r.unread = [] ∨ call.output.length < Z.dStreamOutSize) : Left p r call.output where
  buffered := hbuffered
  boundary hleft := by
    rw [hcontext]
    exact hboundary hleft (hend.resolve_left hleft)
  endsBefore out' := by
    subst hcall
    rcases Nat.lt_or_eq_of_le houtput with hshort | hfull
    · rw [FrameDecoder.endsBefore_of_short hshort, hunread]
    · have hnil := hend.resolve_right (Nat.not_lt.mpr (Nat.le_of_eq hfull.symm))
      rw [FrameDecoder.endsBefore_of_full hfull, ← hunread, hnil]
      refine iff_of_false ?_ ?_
      · rintro ⟨out, -, hends⟩
        exact hends.input_ne_nil not_beginsWithFrame_nil rfl
      · rintro ⟨-, hbegins⟩
        exact not_beginsWithFrame_nil hbegins

/-- A round that has filled its output is followed by others. -/
theorem Left.of_full (hcall : call = Z.decoder.decode p.context p.unread Z.dStreamOutSize)
    (hcontext : r.context = call.context) (hunread : r.unread = p.unread.drop call.consumed)
    (hbuffered : r.msgpackParser.buffered = p.msgpackParser.buffered ++ call.output)
    (hfull : call.output.length = Z.dStreamOutSize) (h : Left r q out) :
    Left p q (call.output ++ out) where
  buffered := by rw [h.buffered, hbuffered, List.append_assoc]
  boundary := h.boundary
  endsBefore out' := by
    have hrest := h.endsBefore
    rw [hcontext, hunread] at hrest
    subst hcall
    rw [FrameDecoder.endsBefore_of_full hfull]
    constructor
    · rintro ⟨rest, rfl, hends⟩
      obtain ⟨rfl, hbegins⟩ := (hrest rest).mp hends
      exact ⟨rfl, hbegins⟩
    · rintro ⟨rfl, hbegins⟩
      exact ⟨out, rfl, (hrest out).mpr ⟨rfl, hbegins⟩⟩

end Round

/-- **The loop ends.** -/
theorem Positioned.decompress (h : p.Positioned unseen part contents) (fresh : Nat → UInt8)
    {fuel : Nat} (hfuel : contents.flatten.length < fuel + part.length) :
    ∃ q out part' contents', ZstdStreamingParser.decompress (some fresh) fuel p = some (none, q) ∧
      q.Positioned unseen part' contents' ∧ contents' <:+ contents ∧ Left p q out := by
  -- the fuel bounds the bytes still to be decompressed: a round that is not the last
  -- has filled its output
  induction fuel generalizing p part contents with
  | zero =>
    have hpart := h.ahead.length_part_le
    omega
  | succ fuel ih =>
    rw [ZstdStreamingParser.decompress]
    by_cases hlt : p.inputPos < p.inputSize
    · obtain ⟨msgpackParser, hprepare⟩ := h.wf.exists_prepare fresh
      obtain ⟨herror, houtput, hunread, hbuffered, hboundary, part', contents', hnext, hsuffix,
        hmeasure⟩ := h.round hlt hprepare rfl
      have hpos := Z.dStreamOutSize_pos
      simp only [if_pos hlt, hprepare, herror]
      split
      · rename_i hend
        rw [← hunread] at hboundary
        refine ⟨_, _, part', contents', rfl, hnext, hsuffix,
          .of_last rfl rfl hunread hbuffered houtput hboundary ?_⟩
        exact hend.imp_left fun hall => hnext.wf.unread_eq_nil_of_le (Nat.le_of_eq hall.symm)
      · rename_i hgoes
        have hfull := Nat.le_antisymm houtput (Nat.le_of_not_lt fun hshort => hgoes (.inr hshort))
        obtain ⟨q, out, part'', contents'', hloop, hq, hsuffix', hleft⟩ := ih hnext (by omega)
        exact ⟨q, _, part'', contents'', hloop, hq, hsuffix'.trans hsuffix,
          .of_full rfl rfl hunread hbuffered hfull hleft⟩
    · exact ⟨p, [], part, contents, if_neg hlt, h, List.suffix_rfl,
        .of_nil (h.wf.unread_eq_nil_of_le (Nat.le_of_not_lt hlt))⟩

theorem Left.clear_iff {q : ZstdStreamingParser Z} {out : Bytes} (h : Left p q out) :
    p.Meets (Clear F) ↔
      (Z.decoder.BeginsWithFrame q.unread → F.parse q.msgpackParser.buffered ≠ .incomplete) := by
  rw [h.buffered]
  constructor
  · intro hclear hbegins
    exact hclear out ((h.endsBefore out).mpr ⟨rfl, hbegins⟩)
  · intro hclear out' hends
    obtain ⟨rfl, hbegins⟩ := (h.endsBefore out').mp hends
    exact hclear hbegins

/-! ## `parse_next` -/

theorem Positioned.takeRead (h : p.Positioned unseen part contents) :
    p.takeRead.Positioned unseen part contents := by
  obtain ⟨hwf, hunread⟩ := h.wf.takeRead
  refine ⟨hwf, ?_⟩
  rw [hunread]
  exact h.ahead

/-- **`parse_next` returns**, and what it leaves in the input is behind a frame. It returns
`false` in front of a complete frame exactly when the way was not clear. -/
theorem Positioned.parseNext {numBytes : Nat}
    (h : (p.consumed numBytes).Positioned unseen part contents) (fresh : Nat → UInt8) {fuel : Nat}
    (hfuel : contents.flatten.length < fuel) :
    ∃ result q part' contents', p.parseNext F (some fresh) fuel numBytes = some (result, q) ∧
      q.Positioned unseen part' contents' ∧ contents' <:+ contents ∧
      (result = .ok true → q.get.2.Positioned unseen part' contents') ∧
      (q.unread ≠ [] → Z.decoder.Boundary q.context) ∧
      (result = .ok false ∧ Z.decoder.BeginsWithFrame q.unread ↔
        ¬ (p.consumed numBytes).Meets (Clear F)) := by
  obtain ⟨q, out, part', contents', hloop, hq, hsuffix, hleft⟩ :=
    h.decompress fresh (Nat.lt_add_right _ hfuel)
  have htaken := hq.takeRead
  have hunread : q.takeRead.unread = q.unread := hq.wf.takeRead.2
  have hboundary : q.takeRead.unread ≠ [] → Z.decoder.Boundary q.takeRead.context := by
    rw [hunread]
    exact hleft.boundary
  have hclear : ¬ (p.consumed numBytes).Meets (Clear F) ↔
      Z.decoder.BeginsWithFrame q.takeRead.unread ∧
        F.parse q.takeRead.msgpackParser.buffered = .incomplete := by
    rw [hleft.clear_iff, hunread, Classical.not_imp, not_not]
    rfl
  unfold ZstdStreamingParser.parseNext
  simp only [hloop, hclear]
  cases hparse : F.parse q.takeRead.msgpackParser.buffered with
  | complete n =>
    rw [MsgpackStreamingParser.parseNext_of_complete hparse]
    have hwf := htaken.wf
    have hfound : ({ q.takeRead with
        msgpackParser := { q.takeRead.msgpackParser with parsedBufSize := n } } :
          ZstdStreamingParser Z).Positioned unseen part' contents' :=
      ⟨⟨hwf.buffer, hwf.capacity, hwf.size, hwf.pos, ⟨hwf.msgpack.buffer, hwf.msgpack.consumed⟩,
        hwf.msgpackCapacity⟩, htaken.ahead⟩
    refine ⟨_, _, part', contents', rfl, hfound, hsuffix, ?_, hboundary, by simp⟩
    intro _
    have hlength : n = (q.takeRead.msgpackParser.buffered.take n).length := by
      rw [List.length_take, Nat.min_eq_left (F.complete_le hparse)]
    have hget := hfound.wf.get (List.take_append_drop n q.takeRead.msgpackParser.buffered).symm
      hlength
    exact ⟨hget.2.1, htaken.ahead⟩
  | incomplete =>
    rw [MsgpackStreamingParser.parseNext_of_incomplete hparse]
    refine ⟨_, _, part', contents', rfl, htaken, hsuffix, (fun hno => by cases hno), hboundary, ?_⟩
    simp only [true_and, and_true]
  | error =>
    have herror : q.takeRead.msgpackParser.parseNext F 0 =
        (.error MsgpackStreamingParser.parseError, q.takeRead.msgpackParser) := by
      have hzero : q.takeRead.msgpackParser.consumed 0 = q.takeRead.msgpackParser := rfl
      simp only [MsgpackStreamingParser.parseNext, hzero, hparse]
    rw [herror]
    refine ⟨_, _, part', contents', rfl, htaken, hsuffix, (fun hno => by cases hno), hboundary, ?_⟩
    simp

end ZstdStreamingParser

/-! ## Every run -/

namespace ZstdReader

open ZstdStreamingParser (Positioned)

variable {contents : List Bytes} {fresh : Nat → UInt8} {fuel : Nat} {s t : ZstdReader Z}

/-- The parser stands somewhere in the stream of the frames with these contents, and what a
`parse_next` has left in the input is behind a frame. -/
def Placed (contents : List Bytes) (s : ZstdReader Z) : Prop :=
  (∃ part left, s.parser.Positioned s.incoming part left ∧ left <:+ contents) ∧
    (s.result ≠ none → s.parser.unread ≠ [] → Z.decoder.Boundary s.parser.context)

theorem length_flatten_le_of_suffix {left contents : List Bytes} (h : left <:+ contents) :
    left.flatten.length ≤ contents.flatten.length := by
  obtain ⟨before, rfl⟩ := h
  rw [List.flatten_append, List.length_append]
  omega

/-- **A call of `parse_next`** returns, and stalls exactly when the way is not clear. -/
theorem parse_spec (fresh : Nat → UInt8) (hfuel : contents.flatten.length < fuel)
    {numBytes : Nat} {part : Bytes} {left : List Bytes}
    (h : (s.parser.consumed numBytes).Positioned s.incoming part left)
    (hleft : left <:+ contents) :
    ∃ t, s.parse F fresh fuel numBytes = some t ∧ Placed contents t ∧
      (¬ t.Stalled ↔ (s.parser.consumed numBytes).Meets (Clear F)) := by
  have hleftFuel := length_flatten_le_of_suffix hleft
  obtain ⟨result, q, part', left', hnext, hq, hsuffix, hget, hboundary, hclear⟩ :=
    h.parseNext (F := F) fresh (Nat.lt_of_le_of_lt hleftFuel hfuel)
  have hleft' := hsuffix.trans hleft
  unfold parse
  rw [hnext]
  cases result with
  | error info =>
    refine ⟨_, rfl, ⟨⟨part', left', hq, hleft'⟩, fun _ => hboundary⟩, ?_⟩
    rw [← not_iff_not, ← hclear, not_not]
    simp [Stalled]
  | ok found =>
    cases found with
    | true =>
      refine ⟨_, rfl, ⟨⟨part', left', hget rfl, hleft'⟩, fun _ => hboundary⟩, ?_⟩
      rw [← not_iff_not, ← hclear, not_not]
      simp [Stalled]
    | false =>
      refine ⟨_, rfl, ⟨⟨part', left', hq, hleft'⟩, fun _ => hboundary⟩, ?_⟩
      rw [← not_iff_not, ← hclear, not_not]
      simp [Stalled]

/-- Bytes that are received go behind the input. -/
theorem positioned_receive {part : Bytes} {left : List Bytes}
    (h : s.parser.Positioned s.incoming part left) {numBytes : Nat}
    (hle : numBytes ≤ s.incoming.length) (room : Nat) (fresh : Nat → UInt8) :
    ∃ parser, s.parser.prepareBuffer (numBytes + room) (some fresh) = some parser ∧
      ((parser.store (s.incoming.take numBytes)).consumed numBytes).Positioned
        (s.incoming.drop numBytes) part left ∧
      ∀ P, ((parser.store (s.incoming.take numBytes)).consumed numBytes).Meets P ↔
        s.AtCall P (.read numBytes room true) := by
  have hlength : (s.incoming.take numBytes).length = numBytes := by
    rw [List.length_take, Nat.min_eq_left hle]
  obtain ⟨parser, hprepare, hwf, hunread, hcontext, hmsgpack⟩ :=
    h.wf.receive (s.incoming.take numBytes) room fresh
  rw [hlength] at hprepare hwf hunread
  refine ⟨parser, hprepare, ⟨hwf, ?_⟩, ?_⟩
  · show Z.decoder.Ahead parser.context part _ left
    rw [hcontext, hunread, List.append_assoc, List.take_append_drop]
    exact h.ahead
  · intro P
    rw [ZstdStreamingParser.Meets, hunread]
    show P parser.context _ parser.msgpackParser.buffered ↔ _
    rw [hcontext, hmsgpack]
    rfl

/-- **One event**: the parser keeps its place, and it stalls exactly when the way is not
clear. An aligned input is clear; if the frames are short, only such an input is. -/
theorem Placed.step (h : Placed contents s) (hfuel : contents.flatten.length < fuel) {e : Event}
    (he : ZstdReader.step F fresh fuel s e = some t) :
    Placed contents t ∧ (¬ t.Stalled ↔ ClearAt F s e) ∧ (AlignedAt F s e → ClearAt F s e) ∧
      ((∀ c ∈ contents, c.length < Z.dStreamOutSize) → ClearAt F s e → AlignedAt F s e) := by
  obtain ⟨⟨part, left, hpos, hleft⟩, -⟩ := h
  cases e with
  | parseNext =>
    have hzero : (s.parser.consumed 0).Positioned s.incoming part left := hpos
    obtain ⟨t', ht', hplaced, hstalled⟩ := parse_spec (F := F) fresh hfuel hzero hleft
    cases he.symm.trans ht'
    exact ⟨hplaced, hstalled, hpos.clear_of_aligned,
      fun hshort => hpos.aligned_of_clear fun c hc => hshort c (hleft.subset hc)⟩
  | read numBytes room parse =>
    simp only [ZstdReader.step, Option.ite_none_right_eq_some] at he
    obtain ⟨hle, he⟩ := he
    obtain ⟨parser, hprepare, hreceived, hmeets⟩ := positioned_receive hpos hle room fresh
    rw [hprepare] at he
    cases parse with
    | true =>
      obtain ⟨t', ht', hplaced, hstalled⟩ := parse_spec (F := F) fresh hfuel
        (s := { s with
          parser := parser.store (s.incoming.take numBytes)
          incoming := s.incoming.drop numBytes }) hreceived hleft
      cases he.symm.trans ht'
      rw [ClearAt, AlignedAt, ← hmeets, ← hmeets]
      exact ⟨hplaced, hstalled, hreceived.clear_of_aligned,
        fun hshort => hreceived.aligned_of_clear fun c hc => hshort c (hleft.subset hc)⟩
    | false =>
      simp only [Bool.false_eq_true, if_false, Option.some.injEq] at he
      subst he
      refine ⟨⟨⟨part, left, hreceived, hleft⟩, fun hno => absurd rfl hno⟩,
        iff_of_true ?_ trivial, fun _ => trivial, fun _ _ => trivial⟩
      rintro ⟨hno, -⟩
      cases hno

theorem placed_init {frames : List Bytes}
    (hframes : List.Forall₂ Z.decoder.IsFrame contents frames) :
    Placed contents (machine F Z fresh fuel frames.flatten).init :=
  ⟨⟨[], contents, ⟨ZstdStreamingParser.wf_make fresh, .boundary Z.boundary_createDCtx hframes⟩,
    List.suffix_rfl⟩, fun hno => absurd rfl hno⟩

/-- **When decompression does not stall.** For every sequence of frames, cut into chunks in
any way: along a run `parse_next` always returns, and where it stalls the decoder is
between two frames. It never returns `false` with a complete frame at the front of the
input if every call of it meets an aligned input; if each frame has less content than one
call of `ZSTD_decompressStream` can give out, that is also necessary. For all frames the
condition is that the way is clear at every call. -/
theorem not_stalled_of_aligned {frames : List Bytes}
    (hframes : List.Forall₂ Z.decoder.IsFrame contents frames)
    (hfuel : contents.flatten.length < fuel) {es : List Event} {u : ZstdReader Z}
    (hr : (machine F Z fresh fuel frames.flatten).run
      (machine F Z fresh fuel frames.flatten).init es = some u) :
    (∃ t, (machine F Z fresh fuel frames.flatten).step u .parseNext = some t) ∧
      (u.Stalled → Z.decoder.Boundary u.parser.context) ∧
      ((machine F Z fresh fuel frames.flatten).EachStep (AlignedAt F)
          (machine F Z fresh fuel frames.flatten).init es →
        (machine F Z fresh fuel frames.flatten).EachState (fun s => ¬ s.Stalled)
          (machine F Z fresh fuel frames.flatten).init es) ∧
      ((∀ c ∈ contents, c.length < Z.dStreamOutSize) →
        ((machine F Z fresh fuel frames.flatten).EachState (fun s => ¬ s.Stalled)
            (machine F Z fresh fuel frames.flatten).init es ↔
          (machine F Z fresh fuel frames.flatten).EachStep (AlignedAt F)
            (machine F Z fresh fuel frames.flatten).init es)) ∧
      ((machine F Z fresh fuel frames.flatten).EachState (fun s => ¬ s.Stalled)
          (machine F Z fresh fuel frames.flatten).init es ↔
        (machine F Z fresh fuel frames.flatten).EachStep (ClearAt F)
          (machine F Z fresh fuel frames.flatten).init es) := by
  have hJ : ∀ s e t, Placed contents s →
      (machine F Z fresh fuel frames.flatten).step s e = some t → Placed contents t :=
    fun s e t h he => (h.step hfuel he).1
  have hinit : Placed contents (machine F Z fresh fuel frames.flatten).init := placed_init hframes
  have hnot : ¬ (machine F Z fresh fuel frames.flatten).init.Stalled := by
    rintro ⟨hno, -⟩
    cases hno
  obtain ⟨⟨part, left, hpos, hleft⟩, hboundary⟩ := Machine.run_invariant hJ hinit hr
  refine ⟨?_, ?_, ?_, ?_, ?_⟩
  · have hzero : (u.parser.consumed 0).Positioned u.incoming part left := hpos
    obtain ⟨t, ht, -⟩ := parse_spec (F := F) fresh hfuel hzero hleft
    exact ⟨t, ht⟩
  · rintro ⟨hresult, hbegins⟩
    refine hboundary (by simp [hresult]) ?_
    intro hnil
    rw [hnil] at hbegins
    exact ZstdStreamingParser.not_beginsWithFrame_nil hbegins
  · intro haligned
    refine Machine.eachState_of_eachStep hJ ?_ hinit hnot haligned
    intro s e t h he hp
    obtain ⟨-, hstalled, hclear, -⟩ := h.step hfuel he
    exact hstalled.mpr (hclear hp)
  · intro hshort
    refine Machine.eachState_iff_eachStep hJ ?_ hinit hnot hr
    intro s e t h _ he
    obtain ⟨-, hstalled, hclear, haligned⟩ := h.step hfuel he
    exact hstalled.trans ⟨haligned hshort, hclear⟩
  · exact Machine.eachState_iff_eachStep hJ (fun s e t h _ he => (h.step hfuel he).2.1) hinit hnot
      hr

/-- A parser that has all bytes of the frames to receive. -/
def storedReader (frames : List Bytes) : Machine (ZstdReader StoredFrames.library) Event :=
  machine Msgpack.framer StoredFrames.library (fun _ => 0) 9 frames.flatten

/-- Frames of `nil` and of `false`. -/
def nilAndFalse : List Bytes := [StoredFrames.encode [0xc0], StoredFrames.encode [0xc2]]

theorem not_stalled_of_aligned_nilAndFalse :
    ((storedReader nilAndFalse).run (storedReader nilAndFalse).init [.read 20 0 true]).map
        (fun s => (s.result, s.parser.unread)) =
          some (some (.ok true), StoredFrames.encode [0xc2]) ∧
      (storedReader nilAndFalse).EachState (fun s => ¬ s.Stalled)
        (storedReader nilAndFalse).init [.read 20 0 true] := by
  have hframes : List.Forall₂ StoredFrames.IsFrame [[0xc0], [0xc2]] nilAndFalse :=
    .cons (StoredFrames.isFrame_encode _) (.cons (StoredFrames.isFrame_encode _) .nil)
  have hrun : ((storedReader nilAndFalse).run (storedReader nilAndFalse).init
      [.read 20 0 true]).map (fun s => (s.result, s.parser.unread)) =
        some (some (.ok true), StoredFrames.encode [0xc2]) := by
    decide +kernel
  obtain ⟨u, hu, -⟩ := Option.map_eq_some_iff.mp hrun
  refine ⟨hrun, (not_stalled_of_aligned hframes (by decide) hu).2.2.1 ⟨?_, ?_⟩⟩
  · -- at the end of the first frame `nil` is decompressed
    rintro out ⟨content, rest, more, hrest, -, hinput⟩
    have hfirst : StoredFrames.library.decoder.InFrame (.header []) [0xc0]
        (StoredFrames.encode [0xc0]) [0xc0] := (StoredFrames.isFrame_encode [0xc0]).enter
    have hsame : StoredFrames.encode [0xc0] ++ StoredFrames.encode [0xc2] = rest ++ more := hinput
    obtain ⟨-, rfl⟩ := FrameDecoder.inFrame_unique hfirst hrest hsame
    decide
  · intro t _
    trivial

/-- An empty frame and a frame of `nil`. -/
def emptyThenNil : List Bytes := [StoredFrames.encode [], StoredFrames.encode [0xc0]]

/-- The beginning of an array of one in a frame, and its element in another. -/
def splitArray : List Bytes := [StoredFrames.encode [0x91], StoredFrames.encode [0xc0]]

/-- All frames have been received, `parse_next` has returned `false`, and the second frame
is in the input. -/
theorem complete_frame_stays :
    List.Forall₂ StoredFrames.library.decoder.IsFrame [[], [0xc0]] emptyThenNil ∧
      List.Forall₂ StoredFrames.library.decoder.IsFrame [[0x91], [0xc0]] splitArray ∧
      (∃ s, (storedReader emptyThenNil).run (storedReader emptyThenNil).init
        [.read 19 0 true] = some s ∧ s.Stalled) ∧
      ∃ s, (storedReader splitArray).run (storedReader splitArray).init
        [.read 20 0 true] = some s ∧ s.Stalled := by
  have hframe := StoredFrames.isFrame_encode
  have hempty : ((storedReader emptyThenNil).run (storedReader emptyThenNil).init
      [.read 19 0 true]).map (fun s => (s.result, s.parser.unread)) =
        some (some (.ok false), StoredFrames.encode [0xc0]) := by
    decide +kernel
  have hsplit : ((storedReader splitArray).run (storedReader splitArray).init
      [.read 20 0 true]).map (fun s => (s.result, s.parser.unread)) =
        some (some (.ok false), StoredFrames.encode [0xc0]) := by
    decide +kernel
  refine ⟨.cons (hframe _) (.cons (hframe _) .nil), .cons (hframe _) (.cons (hframe _) .nil),
    ?_, ?_⟩
  · obtain ⟨s, hs, heq⟩ := Option.map_eq_some_iff.mp hempty
    obtain ⟨hresult, hunread⟩ := Prod.mk.inj heq
    exact ⟨s, hs, hresult, [0xc0], _, [], hframe _, hunread.trans (List.append_nil _).symm⟩
  · obtain ⟨s, hs, heq⟩ := Option.map_eq_some_iff.mp hsplit
    obtain ⟨hresult, hunread⟩ := Prod.mk.inj heq
    exact ⟨s, hs, hresult, [0xc0], _, [], hframe _, hunread.trans (List.append_nil _).symm⟩

end ZstdReader

end MpRpc.Transport
