import Mathlib

/-!
# FrameDecoder — decoding a stream of frames piece by piece

A decoder reads a stream of frames and gives the content of each. A call is given
the input that is there and room for some output; it takes input from the front
and gives output, and it returns when the input is used up, when the output is
full, or when the current frame is decoded and given out completely. The last
symbol of a frame is not taken before the whole content has been given out.

`Ahead` says where a decoder stands in a stream that is known to its end, of which
a call sees the front only. One call moves forward in it.
-/

namespace MpRpc

/-- What one call of a decoder did. -/
structure Decoded (σ β : Type*) where
  context : σ
  consumed : Nat
  output : List β
  error : Option String := none

/-- What a call may do inside a frame of which `rest` is to be read and `out` to be
given out: take it to its end, or go on in it until the input is used up or the
output full. -/
structure Decoded.Moves {σ α β : Type*} (Boundary : σ → Prop)
    (InFrame : σ → List α → List β → Prop) (input : List α) (capacity : Nat) (rest : List α)
    (out : List β) (call : Decoded σ β) : Prop where
  error : call.error = none
  consumed : call.consumed ≤ input.length
  output : call.output.length ≤ capacity
  move :
    call.consumed = rest.length ∧ call.output = out ∧ Boundary call.context ∨
    call.consumed < rest.length ∧
      (∃ out', out = call.output ++ out' ∧
        InFrame call.context (rest.drop call.consumed) out') ∧
      (call.consumed = input.length ∨ call.output.length = capacity)

section Moves

variable {σ α β : Type*} {Boundary : σ → Prop} {InFrame : σ → List α → List β → Prop}
  {input rest : List α} {out : List β} {capacity : Nat}

/-- A call that has nothing to take or no room stays where it is. -/
theorem Decoded.Moves.stay {d : σ} (h : InFrame d rest out) (hrest : rest ≠ [])
    (hreturn : input = [] ∨ capacity = 0) :
    Decoded.Moves Boundary InFrame input capacity rest out ⟨d, 0, [], none⟩ where
  error := rfl
  consumed := Nat.zero_le _
  output := Nat.zero_le _
  move := by
    refine .inr ⟨List.length_pos_iff.mpr hrest, ⟨out, rfl, h⟩, ?_⟩
    rcases hreturn with rfl | rfl
    · exact .inl rfl
    · exact .inr rfl

/-- A call may take one symbol and give out something before it goes on. -/
theorem Decoded.Moves.cons {call : Decoded σ β}
    (h : call.Moves Boundary InFrame input capacity rest out) (x y : α) (given : List β) :
    Decoded.Moves Boundary InFrame (x :: input) (capacity + given.length) (y :: rest)
      (given ++ out)
      { call with consumed := call.consumed + 1, output := given ++ call.output } where
  error := h.error
  consumed := Nat.succ_le_succ h.consumed
  output := by
    have := h.output
    rw [List.length_append]
    omega
  move := by
    rcases h.move with ⟨hend, hout, hboundary⟩ | ⟨hlt, ⟨out', hout, hframe⟩, hreturn⟩
    · exact .inl ⟨by simp [hend], by simp [hout], hboundary⟩
    · refine .inr ⟨Nat.succ_lt_succ hlt, ⟨out', by simp [hout], hframe⟩, ?_⟩
      rcases hreturn with hall | hfull
      · exact .inl (by simp [hall])
      · refine .inr ?_
        rw [List.length_append]
        omega

end Moves

/-- A decoder of frames over `α` with contents over `β`. -/
structure FrameDecoder (α β : Type*) where
  Context : Type
  /-- one call, with the input and the room for output -/
  decode : Context → List α → Nat → Decoded Context β
  /-- a complete frame with this content -/
  IsFrame : (content : List β) → (frame : List α) → Prop
  /-- no frame is begun -/
  Boundary : Context → Prop
  /-- inside a frame of which `rest` is still to be read and `out` to be given out -/
  InFrame : Context → (content : List β) → (rest : List α) → (out : List β) → Prop
  enter : ∀ {d content frame}, Boundary d → IsFrame content frame →
    InFrame d content frame content
  rest_ne_nil : ∀ {d content rest out}, InFrame d content rest out → rest ≠ []
  decode_spec : ∀ {d content rest out input unseen later capacity},
    InFrame d content rest out → input ++ unseen = rest ++ later → input ≠ [] → 0 < capacity →
    (decode d input capacity).Moves Boundary (fun d => InFrame d content) input capacity rest out

namespace FrameDecoder

variable {α β : Type*} {D : FrameDecoder α β}

/-- The content of a frame that is not empty is not given out completely before the
last symbol of the frame has been taken. -/
def LateOutput (D : FrameDecoder α β) : Prop :=
  ∀ d content rest out, D.InFrame d content rest out → content ≠ [] → out ≠ []

/-- The decoder at `d` has given out `part` of the content it is at; it is to read
`stream`, the frames of `contents`, of which the first is the one it is at. -/
inductive Ahead (D : FrameDecoder α β) (d : D.Context) :
    List β → List α → List (List β) → Prop where
  | boundary {contents : List (List β)} {frames : List (List α)} (h : D.Boundary d)
      (hframes : List.Forall₂ D.IsFrame contents frames) : Ahead D d [] frames.flatten contents
  | inFrame {part out : List β} {rest : List α} {later : List (List β)} {frames : List (List α)}
      (h : D.InFrame d (part ++ out) rest out) (hframes : List.Forall₂ D.IsFrame later frames) :
      Ahead D d part (rest ++ frames.flatten) ((part ++ out) :: later)

variable {d : D.Context} {part : List β} {stream : List α} {contents : List (List β)}

/-- A frame is not empty. -/
theorem frame_ne_nil (h : D.Boundary d) {content : List β} {frame : List α}
    (hframe : D.IsFrame content frame) : frame ≠ [] :=
  D.rest_ne_nil (D.enter h hframe)

/-- A stream that goes on goes on with a frame. -/
theorem Ahead.exists_inFrame (h : D.Ahead d part stream contents) (hstream : stream ≠ []) :
    ∃ out rest later frames, D.InFrame d (part ++ out) rest out ∧
      List.Forall₂ D.IsFrame later frames ∧ stream = rest ++ frames.flatten ∧
      contents = (part ++ out) :: later := by
  cases h with
  | boundary h hframes =>
    cases hframes with
    | nil => exact absurd rfl hstream
    | cons hframe hframes => exact ⟨_, _, _, _, D.enter h hframe, hframes, rfl, rfl⟩
  | inFrame h hframes => exact ⟨_, _, _, _, h, hframes, rfl, rfl⟩

/-- A stream that has ended leaves nothing to decode. -/
theorem Ahead.eq_nil (h : D.Ahead d part [] contents) : part = [] ∧ contents = [] := by
  generalize hstream : ([] : List α) = stream at h
  cases h with
  | boundary h hframes =>
    cases hframes with
    | nil => exact ⟨rfl, rfl⟩
    | cons hframe hframes =>
      rw [List.flatten_cons] at hstream
      exact absurd (List.append_eq_nil_iff.mp hstream.symm).1 (frame_ne_nil h hframe)
  | inFrame h hframes =>
    exact absurd (List.append_eq_nil_iff.mp hstream.symm).1 (D.rest_ne_nil h)

/-- What has been given out is the beginning of the current content. -/
theorem Ahead.length_part_le (h : D.Ahead d part stream contents) :
    part.length ≤ contents.flatten.length := by
  cases h with
  | boundary h hframes => exact Nat.zero_le _
  | inFrame h hframes =>
    simp only [List.flatten_cons, List.length_append]
    omega

theorem Ahead.part_prefix (h : D.Ahead d part stream contents) : part <+: contents.flatten := by
  cases h with
  | boundary h hframes => exact List.nil_prefix
  | inFrame h hframes =>
    rw [List.flatten_cons, List.append_assoc]
    exact List.prefix_append _ _

/-- A frame is appended to the stream. -/
theorem Ahead.append (h : D.Ahead d part stream contents) {content : List β} {frame : List α}
    (hframe : D.IsFrame content frame) :
    D.Ahead d part (stream ++ frame) (contents ++ [content]) := by
  have hframes : ∀ {contents : List (List β)} {frames : List (List α)},
      List.Forall₂ D.IsFrame contents frames →
        List.Forall₂ D.IsFrame (contents ++ [content]) (frames ++ [frame]) :=
    fun hall => List.rel_append hall (.cons hframe .nil)
  cases h with
  | boundary h hall => simpa using Ahead.boundary h (hframes hall)
  | inFrame h hall => simpa using Ahead.inFrame h (hframes hall)

/-- With late output a content that is begun is not given out completely. -/
theorem Ahead.part_cases (hlate : D.LateOutput) (h : D.Ahead d part stream contents) :
    part = [] ∨ ∃ out later, out ≠ [] ∧ contents = (part ++ out) :: later := by
  cases h with
  | boundary h hframes => exact .inl rfl
  | inFrame h hframes =>
    rename_i out rest later frames
    by_cases hcontent : part ++ out = []
    · exact .inl (List.append_eq_nil_iff.mp hcontent).1
    · exact .inr ⟨out, later, hlate _ _ _ _ h hcontent, rfl⟩

/-- **One call moves forward**: inside the current frame, until the input is used up
or the output is full, or to the end of the frame. -/
theorem Ahead.decode (h : D.Ahead d part stream contents) {input unseen : List α} {capacity : Nat}
    (hinput : input ++ unseen = stream) (hne : input ≠ []) (hcapacity : 0 < capacity)
    {call : Decoded D.Context β} (hcall : call = D.decode d input capacity) :
    call.error = none ∧ call.consumed ≤ input.length ∧ call.output.length ≤ capacity ∧
    (D.Ahead call.context (part ++ call.output) (stream.drop call.consumed) contents ∧
        (call.consumed = input.length ∨ call.output.length = capacity) ∨
      ∃ later, contents = (part ++ call.output) :: later ∧
        D.Ahead call.context [] (stream.drop call.consumed) later) := by
  have hstream : stream ≠ [] := by
    rw [← hinput]
    exact List.append_ne_nil_of_left_ne_nil hne unseen
  obtain ⟨out, rest, later, frames, hframe, hlater, rfl, rfl⟩ := h.exists_inFrame hstream
  have hmoves := D.decode_spec hframe hinput hne hcapacity
  rw [← hcall] at hmoves
  obtain ⟨herror, hconsumed, houtput, hmove⟩ := hmoves
  refine ⟨herror, hconsumed, houtput, ?_⟩
  rcases hmove with ⟨hend, hout, hboundary⟩ | ⟨hlt, ⟨out', hout, hframe'⟩, hreturn⟩
  · refine .inr ⟨later, by rw [hout], ?_⟩
    rw [hend, List.drop_left]
    exact .boundary hboundary hlater
  · refine .inl ⟨?_, hreturn⟩
    rw [List.drop_append_of_le_length (Nat.le_of_lt hlt)]
    rw [hout, ← List.append_assoc] at hframe' ⊢
    exact .inFrame hframe' hlater

/-! ## What the input holds -/

/-- The input begins with a complete frame. -/
def BeginsWithFrame (D : FrameDecoder α β) (input : List α) : Prop :=
  ∃ content frame more, D.IsFrame content frame ∧ input = frame ++ more

/-- The input holds the rest of the frame that the decoder is at, of which `out` is to be
given out, and a complete frame behind it. -/
def HoldsNext (D : FrameDecoder α β) (d : D.Context) (input : List α) (out : List β) : Prop :=
  ∃ content rest more, D.InFrame d content rest out ∧ D.BeginsWithFrame more ∧
    input = rest ++ more

/-- With enough room one call takes the rest of the frame. -/
theorem decode_rest {content out : List β} {rest : List α} (h : D.InFrame d content rest out)
    (more : List α) (capacity : Nat) (hcapacity : out.length < capacity) :
    (D.decode d (rest ++ more) capacity).consumed = rest.length ∧
      (D.decode d (rest ++ more) capacity).output = out := by
  have hne : rest ++ more ≠ [] := List.append_ne_nil_of_left_ne_nil (D.rest_ne_nil h) more
  have hinput : (rest ++ more) ++ [] = rest ++ more := List.append_nil _
  have hmoves := D.decode_spec h hinput hne (Nat.zero_lt_of_lt hcapacity)
  rcases hmoves.move with ⟨hend, hout, -⟩ | ⟨hlt, ⟨out', hout, -⟩, hreturn⟩
  · exact ⟨hend, hout⟩
  · rw [List.length_append] at hreturn
    rw [hout, List.length_append] at hcapacity
    omega

/-- What a decoder is to read and to give out of its frame is determined by what follows. -/
theorem inFrame_unique {content content' out out' : List β} {rest rest' more more' : List α}
    (h : D.InFrame d content rest out) (h' : D.InFrame d content' rest' out')
    (hsame : rest ++ more = rest' ++ more') : rest = rest' ∧ out = out' := by
  have hcall := decode_rest h more (out.length + out'.length + 1) (by omega)
  have hcall' := decode_rest h' more' (out.length + out'.length + 1) (by omega)
  rw [hsame] at hcall
  have hlength : rest.length = rest'.length := hcall.1.symm.trans hcall'.1
  exact ⟨(List.append_inj hsame hlength).1, hcall.2.symm.trans hcall'.2⟩

/-- **What a call leaves in the input was there before it**: behind a frame that the call
has ended, or behind the frame it is still in. -/
theorem Ahead.holdsNext_of_decode (h : D.Ahead d part stream contents) {input unseen : List α}
    {capacity : Nat} (hinput : input ++ unseen = stream) (hne : input ≠ [])
    (hcapacity : 0 < capacity) {call : Decoded D.Context β}
    (hcall : call = D.decode d input capacity) :
    (D.BeginsWithFrame (input.drop call.consumed) → call.consumed < input.length →
        call.output.length < capacity → D.HoldsNext d input call.output) ∧
      ∀ out, D.HoldsNext call.context (input.drop call.consumed) out →
        D.HoldsNext d input (call.output ++ out) ∨ D.HoldsNext d input call.output := by
  have hstream : stream ≠ [] := by
    rw [← hinput]
    exact List.append_ne_nil_of_left_ne_nil hne unseen
  obtain ⟨out₀, rest, later, frames, hframe, hlater, rfl, rfl⟩ := h.exists_inFrame hstream
  have hmoves := D.decode_spec hframe hinput hne hcapacity
  rw [← hcall] at hmoves
  have hdrop : input.drop call.consumed ++ unseen =
      (rest ++ frames.flatten).drop call.consumed := by
    rw [← hinput, List.drop_append_of_le_length hmoves.consumed]
  have htake : input.take call.consumed = (rest ++ frames.flatten).take call.consumed := by
    rw [← hinput, List.take_append_of_le_length hmoves.consumed]
  rcases hmoves.move with ⟨hend, hout, hboundary⟩ | ⟨hlt, ⟨out', hout, hframe'⟩, hreturn⟩
  · -- the call has ended the frame: what is behind it begins with the next one
    rw [hend, List.drop_left] at hdrop
    rw [hend, List.take_left] at htake
    have hbegins : D.BeginsWithFrame (input.drop call.consumed) →
        D.HoldsNext d input call.output := by
      intro hbegin
      refine ⟨_, rest, _, hout ▸ hframe, hbegin, ?_⟩
      rw [← htake, hend, List.take_append_drop]
    refine ⟨fun hbegin _ _ => hbegins hbegin, ?_⟩
    rintro out ⟨content, rest', more, hframe', -, hrest'⟩
    right
    apply hbegins
    rw [← hend] at hdrop
    cases hlater with
    | nil =>
      rw [hrest', List.flatten_nil] at hdrop
      exact absurd (List.append_eq_nil_iff.mp (List.append_eq_nil_iff.mp hdrop).1).1
        (D.rest_ne_nil hframe')
    | cons hnext hlater =>
      rw [hrest', List.append_assoc, List.flatten_cons] at hdrop
      obtain ⟨rfl, -⟩ := inFrame_unique hframe' (D.enter hboundary hnext) hdrop
      exact ⟨_, _, more, hnext, hrest'⟩
  · rw [List.drop_append_of_le_length (Nat.le_of_lt hlt)] at hdrop
    rw [List.take_append_of_le_length (Nat.le_of_lt hlt)] at htake
    refine ⟨?_, ?_⟩
    · -- a call that ends inside the frame has used up the input or filled the output
      intro _ hleft hshort
      omega
    · rintro out ⟨content, rest', more, hrest, hbegin, hmore⟩
      left
      rw [hmore, List.append_assoc] at hdrop
      obtain ⟨rfl, rfl⟩ := inFrame_unique hrest hframe' hdrop
      refine ⟨_, rest, more, hout ▸ hframe, hbegin, ?_⟩
      rw [← List.take_append_drop call.consumed input, htake, hmore, ← List.append_assoc,
        List.take_append_drop]

/-- A call that has neither used up its input nor filled its output has ended a frame. -/
theorem Ahead.boundary_of_decode (h : D.Ahead d part stream contents) {input unseen : List α}
    {capacity : Nat} (hinput : input ++ unseen = stream) (hne : input ≠ [])
    (hcapacity : 0 < capacity) {call : Decoded D.Context β}
    (hcall : call = D.decode d input capacity) (hleft : call.consumed < input.length)
    (hshort : call.output.length < capacity) : D.Boundary call.context := by
  have hstream : stream ≠ [] := by
    rw [← hinput]
    exact List.append_ne_nil_of_left_ne_nil hne unseen
  obtain ⟨out, rest, later, frames, hframe, -, rfl, rfl⟩ := h.exists_inFrame hstream
  have hmoves := D.decode_spec hframe hinput hne hcapacity
  rw [← hcall] at hmoves
  rcases hmoves.move with ⟨-, -, hboundary⟩ | ⟨-, -, hreturn⟩
  · exact hboundary
  · omega

/-! ## Calls one after the other -/

/-- Calls with room for `capacity`, of which all but the last fill it, give out `out` and
end in front of a complete frame. -/
inductive EndsBefore (D : FrameDecoder α β) (capacity : Nat) :
    D.Context → List α → List β → Prop where
  | short {d : D.Context} {input : List α}
      (hshort : (D.decode d input capacity).output.length < capacity)
      (hnext : D.BeginsWithFrame (input.drop (D.decode d input capacity).consumed)) :
      EndsBefore D capacity d input (D.decode d input capacity).output
  | full {d : D.Context} {input : List α} {out : List β}
      (hfull : (D.decode d input capacity).output.length = capacity)
      (h : EndsBefore D capacity (D.decode d input capacity).context
        (input.drop (D.decode d input capacity).consumed) out) :
      EndsBefore D capacity d input ((D.decode d input capacity).output ++ out)

variable {input unseen : List α} {out : List β} {capacity : Nat}

theorem EndsBefore.input_ne_nil (hnil : ¬ D.BeginsWithFrame [])
    (h : D.EndsBefore capacity d input out) : input ≠ [] := by
  induction h with
  | short hshort hnext =>
    rintro rfl
    rw [List.drop_nil] at hnext
    exact hnil hnext
  | full hfull h ih =>
    rintro rfl
    rw [List.drop_nil] at ih
    exact ih rfl

theorem endsBefore_of_short (hshort : (D.decode d input capacity).output.length < capacity) :
    D.EndsBefore capacity d input out ↔ out = (D.decode d input capacity).output ∧
      D.BeginsWithFrame (input.drop (D.decode d input capacity).consumed) := by
  constructor
  · intro h
    cases h with
    | short _ hnext => exact ⟨rfl, hnext⟩
    | full hfull _ => omega
  · rintro ⟨rfl, hnext⟩
    exact .short hshort hnext

theorem endsBefore_of_full (hfull : (D.decode d input capacity).output.length = capacity) :
    D.EndsBefore capacity d input out ↔ ∃ out', out = (D.decode d input capacity).output ++ out' ∧
      D.EndsBefore capacity (D.decode d input capacity).context
        (input.drop (D.decode d input capacity).consumed) out' := by
  constructor
  · intro h
    cases h with
    | short hshort _ => omega
    | full _ h => exact ⟨_, rfl, h⟩
  · rintro ⟨out', rfl, h⟩
    exact .full hfull h

/-- With enough room the first call ends the frame. -/
theorem HoldsNext.endsBefore (h : D.HoldsNext d input out) (hroom : out.length < capacity) :
    D.EndsBefore capacity d input out := by
  obtain ⟨content, rest, more, hframe, hbegins, rfl⟩ := h
  obtain ⟨hconsumed, hout⟩ := decode_rest hframe more capacity hroom
  have hends := @EndsBefore.short _ _ D capacity d (rest ++ more)
  rw [hconsumed, hout, List.drop_left] at hends
  exact hends hroom hbegins

/-- The first frame that the calls come to the end of has a complete frame behind it, too. -/
theorem EndsBefore.exists_holdsNext (hnil : ¬ D.BeginsWithFrame []) (hcapacity : 0 < capacity)
    (h : D.EndsBefore capacity d input out) (hahead : D.Ahead d part (input ++ unseen) contents) :
    ∃ out₀, out₀ <+: out ∧ D.HoldsNext d input out₀ := by
  have hne := h.input_ne_nil hnil
  induction h generalizing part contents with
  | short hshort hnext =>
    obtain ⟨hends, -⟩ := hahead.holdsNext_of_decode rfl hne hcapacity rfl
    refine ⟨_, List.prefix_rfl, hends hnext ?_ hshort⟩
    by_contra hall
    rw [List.drop_eq_nil_of_le (Nat.le_of_not_lt hall)] at hnext
    exact hnil hnext
  | @full d input out hfull h ih =>
    obtain ⟨-, hstays⟩ := hahead.holdsNext_of_decode rfl hne hcapacity rfl
    obtain ⟨-, hconsumed, -, hmove⟩ := hahead.decode rfl hne hcapacity rfl
    rw [List.drop_append_of_le_length hconsumed] at hmove
    obtain ⟨out₀, hprefix, hholds⟩ : ∃ out₀, out₀ <+: out ∧
        D.HoldsNext (D.decode d input capacity).context
          (input.drop (D.decode d input capacity).consumed) out₀ := by
      rcases hmove with ⟨hgoes, -⟩ | ⟨later, -, hgoes⟩
      · exact ih hgoes (h.input_ne_nil hnil)
      · exact ih hgoes (h.input_ne_nil hnil)
    rcases hstays out₀ hholds with hsame | hended
    · exact ⟨_, (List.prefix_append_right_inj _).mpr hprefix, hsame⟩
    · exact ⟨_, List.prefix_append _ _, hended⟩

end FrameDecoder

/-! ## Decoders that go symbol by symbol -/

/-- What one symbol leads to, and what is given out for it. -/
structure Stepped (σ β : Type*) where
  context : σ
  output : Option β := none
  /-- the symbol was the last one of its frame -/
  ended : Bool := false

section StepByStep

variable {σ α β : Type*}

/-- One call of a decoder: symbols are taken until the frame ends or there is no room. -/
def decodeBy (step : σ → α → Except String (Stepped σ β)) : σ → List α → Nat → Decoded σ β
  | d, [], _ => ⟨d, 0, [], none⟩
  | d, x :: input, capacity =>
      match step d x with
      | .error name => ⟨d, 0, [], some name⟩
      | .ok next =>
          if capacity < next.output.toList.length then ⟨d, 0, [], none⟩
          else if next.ended then ⟨next.context, 1, next.output.toList, none⟩
          else
            let call := decodeBy step next.context input (capacity - next.output.toList.length)
            { call with
              consumed := call.consumed + 1
              output := next.output.toList ++ call.output }

/-- All symbols at once; `start` says whether a frame is begun. -/
def decodeAll (step : σ → α → Except String (Stepped σ β)) (start : σ → Bool) :
    σ → List α → Except String (List β)
  | d, [] => if start d then .ok [] else .error "Src size is incorrect"
  | d, x :: input =>
      match step d x with
      | .error name => .error name
      | .ok next => (decodeAll step start next.context input).map (next.output.toList ++ ·)

variable {step : σ → α → Except String (Stepped σ β)}

/-- A call stays within its input and its room. -/
theorem decodeBy_le (d : σ) (input : List α) (capacity : Nat) :
    (decodeBy step d input capacity).consumed ≤ input.length ∧
      (decodeBy step d input capacity).output.length ≤ capacity := by
  induction input generalizing d capacity with
  | nil => exact ⟨Nat.le_refl _, Nat.zero_le _⟩
  | cons x input ih =>
    rw [decodeBy]
    split
    · exact ⟨Nat.zero_le _, Nat.zero_le _⟩
    · rename_i next hnext
      split
      · exact ⟨Nat.zero_le _, Nat.zero_le _⟩
      · rename_i hroom
        split
        · exact ⟨Nat.succ_le_succ (Nat.zero_le _), Nat.le_of_not_lt hroom⟩
        · obtain ⟨hconsumed, houtput⟩ := ih next.context (capacity - next.output.toList.length)
          refine ⟨Nat.succ_le_succ hconsumed, ?_⟩
          simp only [List.length_append]
          omega

/-- A symbol inside a frame ends it or leads on in it. -/
def StepsInFrame (step : σ → α → Except String (Stepped σ β)) (Boundary : σ → Prop)
    (InFrame : σ → List α → List β → Prop) : Prop :=
  ∀ d rest out, InFrame d rest out → ∃ x rest' next out', rest = x :: rest' ∧
    step d x = .ok next ∧ out = next.output.toList ++ out' ∧
    (next.ended = true ∧ rest' = [] ∧ out' = [] ∧ Boundary next.context ∨
      next.ended = false ∧ InFrame next.context rest' out')

variable {Boundary : σ → Prop} {InFrame : σ → List α → List β → Prop}

/-- **A call moves inside its frame** if every symbol does. -/
theorem decodeBy_moves (hstep : StepsInFrame step Boundary InFrame) {d : σ}
    {rest input unseen later : List α} {out : List β} {capacity : Nat} (h : InFrame d rest out)
    (hinput : input ++ unseen = rest ++ later) :
    (decodeBy step d input capacity).Moves Boundary InFrame input capacity rest out := by
  induction input generalizing d rest out capacity with
  | nil =>
    obtain ⟨x, rest', next, out', rfl, -⟩ := hstep d rest out h
    exact .stay h (List.cons_ne_nil x rest') (.inl rfl)
  | cons y input ih =>
    obtain ⟨x, rest', next, out', rfl, hnext, rfl, hcases⟩ := hstep d rest out h
    obtain ⟨rfl, htail⟩ := List.cons.inj hinput
    rw [decodeBy]
    simp only [hnext]
    by_cases hroom : capacity < next.output.toList.length
    · -- at most one symbol is given out, so that there is no room at all
      have hone : next.output.toList.length ≤ 1 := by cases next.output <;> simp
      rw [if_pos hroom]
      exact .stay h (List.cons_ne_nil y rest') (.inr (by omega))
    · rw [if_neg hroom]
      rcases hcases with ⟨hended, rfl, rfl, hboundary⟩ | ⟨hgoes, hframe⟩
      · rw [if_pos hended]
        exact ⟨rfl, Nat.succ_le_succ (Nat.zero_le _), Nat.le_of_not_lt hroom,
          .inl ⟨rfl, (List.append_nil _).symm, hboundary⟩⟩
      · rw [hgoes, if_neg Bool.false_ne_true]
        have hcall :=
          @ih next.context rest' out' (capacity - next.output.toList.length) hframe htail
        have hmoves := hcall.cons y y next.output.toList
        rwa [Nat.sub_add_cancel (Nat.le_of_not_lt hroom)] at hmoves

/-- **What is decoded at once**: the rest of the frame, and then what follows. -/
theorem decodeAll_append {start : σ → Bool} {d₀ : σ} (hboundary : ∀ d, Boundary d → d = d₀)
    (hstep : StepsInFrame step Boundary InFrame) {d : σ} {rest : List α} {out : List β}
    (h : InFrame d rest out) (more : List α) :
    decodeAll step start d (rest ++ more) = (decodeAll step start d₀ more).map (out ++ ·) := by
  induction rest generalizing d out with
  | nil =>
    obtain ⟨x, rest', next, out', hnil, -⟩ := hstep d [] out h
    cases hnil
  | cons y rest ih =>
    obtain ⟨x, rest', next, out', hrest, hnext, rfl, hcases⟩ := hstep d (y :: rest) out h
    obtain ⟨rfl, rfl⟩ := List.cons.inj hrest
    rw [List.cons_append, decodeAll]
    simp only [hnext]
    rcases hcases with ⟨-, rfl, rfl, hend⟩ | ⟨-, hframe⟩
    · rw [hboundary _ hend, List.nil_append, List.append_nil]
    · rw [ih hframe]
      cases decodeAll step start d₀ more with
      | error name => rfl
      | ok content => simp only [Except.map, List.append_assoc]

end StepByStep

end MpRpc
