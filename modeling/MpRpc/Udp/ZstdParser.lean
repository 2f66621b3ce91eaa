import MpRpc.Transport.StoredFrames
import MpRpc.Transport.Zstd
import MpRpc.Udp.Reader

/-!
# ZstdParser — compressed datagrams

`zstd_parser` decompresses one datagram at a time into a buffer that it keeps. The
buffer is resized to the size that the header of the frame declares before the frame
is looked at, so a datagram decides how much memory is asked for. The zstd library is
a parameter: `ZSTD_decompressDCtx` gives the content of valid input if there is room
for it, and an error otherwise.
-/

namespace MpRpc.Udp

open Transport

/-- The functions of the zstd library that `zstd_parser` uses. An error is its
`ZSTD_getErrorName`. -/
structure ZstdFrames where
  DCtx : Type
  createDCtx : DCtx
  /-- valid input, and what it is decompressed to -/
  IsFrame : (content frame : Bytes) → Prop
  /-- what the header declares; zero if that is nothing, or if it is no header -/
  getDecompressedSize : Bytes → Nat
  decompressDCtx : DCtx → (capacity : Nat) → Bytes → Except String Bytes × DCtx
  length_le : ∀ {d capacity frame out},
    (decompressDCtx d capacity frame).1 = .ok out → out.length ≤ capacity
  isFrame_of_ok : ∀ {d capacity frame out},
    (decompressDCtx d capacity frame).1 = .ok out → IsFrame out frame
  decompressDCtx_spec : ∀ {d capacity frame content}, IsFrame content frame →
    content.length ≤ capacity → (decompressDCtx d capacity frame).1 = .ok content

variable {Z : ZstdFrames}

/-- Valid input has one content. -/
theorem ZstdFrames.isFrame_unique {content content' frame : Bytes} (h : Z.IsFrame content frame)
    (h' : Z.IsFrame content' frame) : content = content' := by
  have hok := Z.decompressDCtx_spec (d := Z.createDCtx) h (Nat.le_max_left _ content'.length)
  have hok' := Z.decompressDCtx_spec (d := Z.createDCtx) h' (Nat.le_max_right content.length _)
  cases hok.symm.trans hok'
  rfl

/-- `zstd_parser` -/
structure ZstdParser (Z : ZstdFrames) where
  context : Z.DCtx
  buffer : Buffer

namespace ZstdParser

/-- The constructor. -/
def make (Z : ZstdFrames) (fresh : Nat → UInt8) : ZstdParser Z :=
  ⟨Z.createDCtx, .empty fresh⟩

/-- `parse`: what it returns or throws, and the parser after it; `none` is
`std::bad_alloc`. -/
def parse (p : ZstdParser Z) (bytes : Bytes) (allocation : Allocation) :
    Option (Except ErrorInfo MessageData) × ZstdParser Z :=
  match p.buffer.resize (Z.getDecompressedSize bytes) allocation with
  | none => (none, p)
  | some buffer =>
      match Z.decompressDCtx p.context buffer.size bytes with
      -- what a failed call has written is not read again
      | (.error name, context) =>
          (some (.error (ZstdStreamingParser.decompressionError name)),
            ⟨context, buffer⟩)
      | (.ok out, context) =>
          (some (.ok ((buffer.store 0 out).data.take out.length)), ⟨context, buffer.store 0 out⟩)

/-- `zstd_parser` as a `parser`. -/
def parser (Z : ZstdFrames) : Parser (ZstdParser Z) Allocation := ⟨parse⟩

/-- A call of `parse`: the datagram, and what the allocator does. -/
structure Datagram where
  bytes : Bytes
  allocation : Allocation

/-- Calls of `parse` one after the other. -/
def machine (Z : ZstdFrames) (fresh : Nat → UInt8) : Machine (ZstdParser Z) Datagram where
  init := make Z fresh
  step p d := some (p.parse d.bytes d.allocation).2

/-- `parse` returns what the datagram is decompressed to, or throws `mprpc::exception`,
and of valid input it returns the content. -/
structure AsDocumented (Z : ZstdFrames) (bytes : Bytes)
    (result : Option (Except ErrorInfo MessageData)) : Prop where
  noOther : result ≠ none
  returned : ∀ data, result = some (.ok data) → Z.IsFrame data bytes
  exactly : ∀ content, Z.IsFrame content bytes → result = some (.ok content)

/-- The declared size fits the block that is there, or the allocator serves it. -/
def Served (p : ZstdParser Z) (d : Datagram) : Prop :=
  Z.getDecompressedSize d.bytes ≤ p.buffer.capacity ∨ d.allocation ≠ none

/-- Valid input declares at least the size of its content. -/
def Declared (Z : ZstdFrames) (bytes : Bytes) : Prop :=
  ∀ content, Z.IsFrame content bytes → content.length ≤ Z.getDecompressedSize bytes

variable {p : ZstdParser Z} {bytes : Bytes} {allocation : Allocation}

theorem capacity_make (fresh : Nat → UInt8) : (make Z fresh).buffer.capacity = 1024 := by
  simp [make, Buffer.capacity, Buffer.empty]

/-- A size that is not served leaves the parser as it is. -/
theorem parse_of_not_served (hpos : 0 < p.buffer.capacity) {d : Datagram} (h : ¬ p.Served d) :
    p.parse d.bytes d.allocation = (none, p) := by
  rw [parse, (Buffer.resize_eq_none_iff hpos).mpr h]

/-- **What `parse` gives once the buffer has been resized**: what the library gives for
room of the declared size. -/
theorem parse_of_resize {buffer : Buffer}
    (h : p.buffer.resize (Z.getDecompressedSize bytes) allocation = some buffer) :
    (p.parse bytes allocation).1 =
      match (Z.decompressDCtx p.context (Z.getDecompressedSize bytes) bytes).1 with
      | .error name => some (.error (ZstdStreamingParser.decompressionError name))
      | .ok out => some (.ok out) := by
  have hsize := (Buffer.resize_spec h).1
  simp only [parse, h]
  rw [hsize]
  cases Z.decompressDCtx p.context (Z.getDecompressedSize bytes) bytes with
  | mk result context =>
    cases result with
    | error name => rfl
    | ok out =>
      have hstored := Buffer.take_store (Nat.zero_le buffer.capacity) out
      rw [Nat.zero_add, List.take_zero, List.nil_append] at hstored
      simp only [hstored]

/-- The block never shrinks. -/
theorem capacity_le_parse (p : ZstdParser Z) (bytes : Bytes) (allocation : Allocation) :
    p.buffer.capacity ≤ (p.parse bytes allocation).2.buffer.capacity := by
  rw [parse]
  cases hresize : p.buffer.resize (Z.getDecompressedSize bytes) allocation with
  | none => exact Nat.le_refl _
  | some buffer =>
    have hgrow := Buffer.capacity_le_resize hresize
    simp only
    cases Z.decompressDCtx p.context buffer.size bytes with
    | mk result context =>
      cases result with
      | error name => exact hgrow
      | ok out => exact Nat.le_trans hgrow (Buffer.capacity_le_store _ _ _)

theorem capacity_pos_of_run {fresh : Nat → UInt8} {ds : List Datagram}
    (hr : (machine Z fresh).run (machine Z fresh).init ds = some p) : 0 < p.buffer.capacity := by
  refine Machine.run_invariant (I := fun p => 0 < p.buffer.capacity) ?_ ?_ hr
  · intro p d q hp hq
    cases hq
    exact Nat.lt_of_lt_of_le hp (capacity_le_parse p d.bytes d.allocation)
  · show 0 < (make Z fresh).buffer.capacity
    rw [capacity_make]
    decide

/-- **When `parse` does as documented**, after any calls before: the declared size is
served, and valid input declares the size of its content. -/
theorem asDocumented_iff {fresh : Nat → UInt8} {ds : List Datagram}
    (hr : (machine Z fresh).run (machine Z fresh).init ds = some p) (d : Datagram) :
    AsDocumented Z d.bytes (p.parse d.bytes d.allocation).1 ↔
      p.Served d ∧ Declared Z d.bytes := by
  have hpos := capacity_pos_of_run hr
  by_cases hserved : p.Served d
  · have hsome : p.buffer.resize (Z.getDecompressedSize d.bytes) d.allocation ≠ none := by
      intro hnone
      exact (Buffer.resize_eq_none_iff hpos).mp hnone hserved
    obtain ⟨buffer, hresize⟩ := Option.ne_none_iff_exists'.mp hsome
    rw [and_iff_right hserved, parse_of_resize hresize]
    cases hcall : (Z.decompressDCtx p.context (Z.getDecompressedSize d.bytes) d.bytes).1 with
    | ok out =>
      have hframe := Z.isFrame_of_ok hcall
      refine iff_of_true ⟨by simp, ?_, ?_⟩ ?_
      · intro data hdata
        cases hdata
        exact hframe
      · intro content hcontent
        rw [ZstdFrames.isFrame_unique hcontent hframe]
      · intro content hcontent
        rw [ZstdFrames.isFrame_unique hcontent hframe]
        exact Z.length_le hcall
    | error name =>
      -- valid input fails only for lack of room
      constructor
      · intro h content hcontent
        cases h.exactly content hcontent
      · intro hdeclared
        refine ⟨by simp, ?_, ?_⟩
        · intro data hdata
          cases hdata
        · intro content hcontent
          have hok := Z.decompressDCtx_spec (d := p.context) hcontent (hdeclared content hcontent)
          cases hcall.symm.trans hok
  · rw [parse_of_not_served hpos hserved]
    exact iff_of_false (fun h => h.noOther rfl) (fun h => hserved h.1)

end ZstdParser

/-- The library, for input that is stored. -/
def storedFrames : ZstdFrames where
  DCtx := Unit
  createDCtx := ()
  IsFrame content frames := StoredFrames.contentOf frames = .ok content
  getDecompressedSize := StoredFrames.getDecompressedSize
  decompressDCtx _ capacity frames := (StoredFrames.decompress capacity frames, ())
  length_le h := (StoredFrames.decompress_eq_ok_iff.mp h).2
  isFrame_of_ok h := (StoredFrames.decompress_eq_ok_iff.mp h).1
  decompressDCtx_spec hframe hroom := StoredFrames.decompress_eq_ok_iff.mpr ⟨hframe, hroom⟩

namespace ZstdParser

/-- A header that declares 2^64 - 3 bytes, which the allocator cannot give. -/
def hugeSize : Datagram :=
  ⟨[0x28, 0xB5, 0x2F, 0xFD, 0xE0, 0xFD, 0xFF, 0xFF, 0xFF, 0xFF, 0xFF, 0xFF, 0xFF], none⟩

theorem parse_hugeSize (fresh : Nat → UInt8) :
    (make storedFrames fresh).parse hugeSize.bytes hugeSize.allocation =
      (none, make storedFrames fresh) := by
  apply parse_of_not_served
  · rw [capacity_make]
    decide
  · rw [Served, capacity_make]
    decide

/-- A frame with the object `nil`, for which no memory is needed. -/
def nilFrame : Datagram := ⟨StoredFrames.encode [0xc0], none⟩

theorem asDocumented_iff_nilFrame :
    (machine storedFrames fun _ => 0).run (machine storedFrames fun _ => 0).init
        [hugeSize] = some (make storedFrames fun _ => 0) ∧
      AsDocumented storedFrames nilFrame.bytes
        ((make storedFrames fun _ => 0).parse nilFrame.bytes nilFrame.allocation).1 := by
  have hrun : (machine storedFrames fun _ => 0).run
      (machine storedFrames fun _ => 0).init [hugeSize] =
        some (make storedFrames fun _ => 0) := by
    refine (Machine.run_cons _).mpr ⟨_, ?_, rfl⟩
    exact congrArg (fun r => some r.2) (parse_hugeSize _)
  refine ⟨hrun, (asDocumented_iff hrun nilFrame).mpr ⟨.inl ?_, ?_⟩⟩
  · rw [capacity_make]
    decide
  · intro content hcontent
    cases hcontent.symm.trans (StoredFrames.contentOf_encode [0xc0])
    decide

/-- The declared size is asked for, and `std::bad_alloc` leaves `parse`; through
`udp_common` no handler is called for it. -/
theorem declared_size_is_allocated :
    ((make storedFrames fun _ => 0).parse hugeSize.bytes hugeSize.allocation).1 = none ∧
      ¬ AsDocumented storedFrames hugeSize.bytes
        ((make storedFrames fun _ => 0).parse hugeSize.bytes hugeSize.allocation).1 ∧
      ((Reader.machine (parser storedFrames) Nat (make storedFrames fun _ => 0)).run
        (Reader.machine (parser storedFrames) Nat (make storedFrames fun _ => 0)).init
        [.asyncRead, .completed 1 (.datagram 7 hugeSize.bytes) none hugeSize.allocation]).map
          (fun s => (s.waiting, s.calls.length)) = some ([], 0) := by
  have hnone : ((make storedFrames fun _ => 0).parse hugeSize.bytes
      hugeSize.allocation).1 = none := by
    rw [parse_hugeSize]
  refine ⟨hnone, fun h => h.noOther hnone, ?_⟩
  decide +kernel

end ZstdParser

end MpRpc.Udp
