import MpRpc.Config
import MpRpc.Udp.ZstdParser

/-!
# Codec — datagrams, and the messages in them

A `compressor` makes one datagram of one message and a `parser` makes one message of one
datagram. The two pairs are those of `create_compressor_factory` and
`create_parser_factory`. `zstd_compressor` and `zstd_parser` keep a context and a buffer
from call to call, so what they do is to be shown after any calls before.
-/

namespace MpRpc.Udp

open Transport

/-- `compressor`: `compress` may throw `mprpc::exception`, or another exception (`none`). -/
structure Compressor (κ χ : Type*) where
  compress : κ → MessageData → χ → Option (Except ErrorInfo Bytes) × κ

/-- `null_compressor` -/
def nullCompressor : Compressor Unit Unit := ⟨fun _ data _ => (some (.ok data), ())⟩

/-- The functions of the zstd library that `zstd_compressor` uses. The context has the
compression level of the configuration. -/
structure ZstdCompression (Z : ZstdFrames) where
  CCtx : Type
  createCCtx : CCtx
  compressBound : Nat → Nat
  compress2 : CCtx → (capacity : Nat) → Bytes → Except String Bytes × CCtx
  length_le : ∀ {c capacity data frame},
    (compress2 c capacity data).1 = .ok frame → frame.length ≤ capacity
  isFrame_compress2 : ∀ {c capacity data frame},
    (compress2 c capacity data).1 = .ok frame → Z.IsFrame data frame
  /-- the header declares the size of the content -/
  size_compress2 : ∀ {c capacity data frame},
    (compress2 c capacity data).1 = .ok frame → Z.getDecompressedSize frame = data.length

variable {Z : ZstdFrames} {C : ZstdCompression Z}

/-- `zstd_compressor` -/
structure ZstdCompressor (C : ZstdCompression Z) where
  context : C.CCtx
  buffer : Buffer

namespace ZstdCompressor

/-- The constructor. -/
def make (C : ZstdCompression Z) (fresh : Nat → UInt8) : ZstdCompressor C :=
  ⟨C.createCCtx, .empty fresh⟩

def compressionError (name : String) : ErrorInfo :=
  .of .unexpectedError ("error in compression with zstd library: " ++ name)

/-- `compress`: what it returns or throws, and the compressor after it; `none` is
`std::bad_alloc`. -/
def compress (c : ZstdCompressor C) (data : MessageData) (allocation : Allocation) :
    Option (Except ErrorInfo Bytes) × ZstdCompressor C :=
  match c.buffer.resize (C.compressBound data.length) allocation with
  | none => (none, c)
  | some buffer =>
      match C.compress2 c.context buffer.size data with
      | (.error name, context) => (some (.error (compressionError name)), ⟨context, buffer⟩)
      | (.ok out, context) =>
          (some (.ok ((buffer.store 0 out).data.take out.length)), ⟨context, buffer.store 0 out⟩)

/-- `zstd_compressor` as a `compressor`. -/
def compressor (C : ZstdCompression Z) : Compressor (ZstdCompressor C) Allocation := ⟨compress⟩

variable {c : ZstdCompressor C} {data : MessageData} {allocation : Allocation}

/-- **What `compress` gives once the buffer has been resized**: what the library gives for
room of `ZSTD_compressBound`. -/
theorem compress_of_resize {buffer : Buffer}
    (h : c.buffer.resize (C.compressBound data.length) allocation = some buffer) :
    (c.compress data allocation).1 =
      match (C.compress2 c.context (C.compressBound data.length) data).1 with
      | .error name => some (.error (compressionError name))
      | .ok out => some (.ok out) := by
  have hsize := (Buffer.resize_spec h).1
  simp only [compress, h]
  rw [hsize]
  cases C.compress2 c.context (C.compressBound data.length) data with
  | mk result context =>
    cases result with
    | error name => rfl
    | ok out =>
      have hstored := Buffer.take_store (Nat.zero_le buffer.capacity) out
      rw [Nat.zero_add, List.take_zero, List.nil_append] at hstored
      simp only [hstored]

/-- A datagram that `compress` returns is one that the library made. -/
theorem of_compress {frame : Bytes} (h : (c.compress data allocation).1 = some (.ok frame)) :
    (C.compress2 c.context (C.compressBound data.length) data).1 = .ok frame := by
  cases hresize : c.buffer.resize (C.compressBound data.length) allocation with
  | none => simp [compress, hresize] at h
  | some buffer =>
    rw [compress_of_resize hresize] at h
    cases hcall : (C.compress2 c.context (C.compressBound data.length) data).1 with
    | error name => simp [hcall] at h
    | ok out =>
      rw [hcall] at h
      cases h
      rfl

end ZstdCompressor

namespace ZstdParser

/-- **`zstd_parser` undoes `zstd_compressor`** if there is memory for the message. -/
theorem parse_compress {c : ZstdCompressor C} {p : ZstdParser Z} {data : MessageData}
    {frame : Bytes} {allocation : Allocation}
    (h : (c.compress data allocation).1 = some (.ok frame)) (again : Allocation) :
    (p.parse frame again).1 = (p.buffer.resize data.length again).map fun _ => .ok data := by
  have hcall := ZstdCompressor.of_compress h
  have hframe := C.isFrame_compress2 hcall
  have hsize := C.size_compress2 hcall
  cases hresize : p.buffer.resize data.length again with
  | none => simp [parse, hsize, hresize]
  | some buffer =>
    rw [← hsize] at hresize
    have hok := Z.decompressDCtx_spec (d := p.context) hframe (Nat.le_of_eq hsize.symm)
    rw [parse_of_resize hresize, hok]
    rfl

end ZstdParser

/-- **Datagrams make the round trip**: whatever the two were given before, also what they
could not compress or decompress, the parser reads a datagram as the message it was made
of, or lacks the memory for it. -/
theorem zstd_datagram_round_trip {fresh : Nat → UInt8} {c : ZstdCompressor C} {p : ZstdParser Z}
    {ds : List ZstdParser.Datagram}
    (hp : (ZstdParser.machine Z fresh).run (ZstdParser.machine Z fresh).init ds = some p)
    {data : MessageData} {allocation : Allocation} {frame : Bytes}
    (hframe : (c.compress data allocation).1 = some (.ok frame)) (again : Allocation) :
    (p.parse frame again).1 =
      if data.length ≤ p.buffer.capacity ∨ again ≠ none then some (.ok data) else none := by
  have hpos := ZstdParser.capacity_pos_of_run hp
  rw [ZstdParser.parse_compress hframe again]
  cases hresize : p.buffer.resize data.length again with
  | none =>
    rw [if_neg ((Buffer.resize_eq_none_iff hpos).mp hresize)]
    rfl
  | some buffer =>
    have hserved : data.length ≤ p.buffer.capacity ∨ again ≠ none := by
      by_contra hnot
      rw [(Buffer.resize_eq_none_iff hpos).mpr hnot] at hresize
      cases hresize
    rw [if_pos hserved]
    rfl

/-- `ZSTD_compress2`, for data that it stores. -/
def storedCompression : ZstdCompression storedFrames where
  CCtx := Unit
  createCCtx := ()
  compressBound := StoredFrames.compressBound
  compress2 _ capacity data := (StoredFrames.compress capacity data, ())
  length_le h := by
    obtain ⟨rfl, -, hroom⟩ := StoredFrames.compress_eq_ok_iff.mp h
    exact hroom
  isFrame_compress2 h := by
    obtain ⟨rfl, -, -⟩ := StoredFrames.compress_eq_ok_iff.mp h
    exact StoredFrames.contentOf_encode _
  size_compress2 h := by
    obtain ⟨rfl, hsize, -⟩ := StoredFrames.compress_eq_ok_iff.mp h
    exact StoredFrames.getDecompressedSize_encode hsize

/-- The parser has met a size that it has no memory for, and then reads `nil`. -/
theorem zstd_datagram_round_trip_nil :
    (((ZstdCompressor.make storedCompression fun _ => 0).compress [0xc0] none).1 =
        some (.ok (StoredFrames.encode [0xc0]))) ∧
      ((ZstdParser.make storedFrames fun _ => 0).parse (StoredFrames.encode [0xc0]) none).1 =
        some (.ok [0xc0]) := by
  have hrun : (ZstdParser.machine storedFrames fun _ => 0).run
      (ZstdParser.machine storedFrames fun _ => 0).init [ZstdParser.hugeSize] =
        some (ZstdParser.make storedFrames fun _ => 0) := by
    refine (Machine.run_cons _).mpr ⟨_, ?_, rfl⟩
    exact congrArg (fun r => some r.2) (ZstdParser.parse_hugeSize _)
  have hframe : ((ZstdCompressor.make storedCompression fun _ => 0).compress [0xc0] none).1 =
      some (.ok (StoredFrames.encode [0xc0])) := by
    decide +kernel
  refine ⟨hframe, ?_⟩
  rw [zstd_datagram_round_trip hrun hframe none, if_pos]
  rw [ZstdParser.capacity_make]
  decide

/-! ## Both codecs -/

/-- A `compressor`, and a `parser` at the other end. -/
structure DatagramCodec where
  Sender : Type
  Reader : Type
  SendChoice : Type
  ReadChoice : Type
  compressor : Compressor Sender SendChoice
  parser : Parser Reader ReadChoice
  /-- the two after their construction -/
  sender : Sender
  reader : Reader
  /-- the datagram was made of the message -/
  Carries : MessageData → Bytes → Prop
  carries_compress : ∀ {c data choice bytes},
    (compressor.compress c data choice).1 = some (.ok bytes) → Carries data bytes
  parse_carries : ∀ {p data bytes} (choice : ReadChoice), Carries data bytes →
    (parser.parse p bytes choice).1 = none ∨ (parser.parse p bytes choice).1 = some (.ok data)

/-- Datagrams without compression. -/
def plainDatagrams : DatagramCodec where
  Sender := Unit
  Reader := Unit
  SendChoice := Unit
  ReadChoice := Unit
  compressor := nullCompressor
  parser := .ofParse msgpackParse
  sender := ()
  reader := ()
  Carries data bytes := data = bytes
  carries_compress h := by
    cases h
    rfl
  parse_carries _ h := by
    cases h
    exact .inr rfl

/-- Datagrams that are compressed each for itself. -/
def zstdDatagrams (C : ZstdCompression Z) (fresh : Nat → UInt8) : DatagramCodec where
  Sender := ZstdCompressor C
  Reader := ZstdParser Z
  SendChoice := Allocation
  ReadChoice := Allocation
  compressor := ZstdCompressor.compressor C
  parser := ZstdParser.parser Z
  sender := .make C fresh
  reader := .make Z fresh
  Carries data bytes := ∃ (c : ZstdCompressor C) (allocation : Allocation),
    (c.compress data allocation).1 = some (.ok bytes)
  carries_compress h := ⟨_, _, h⟩
  parse_carries := by
    rintro p data bytes choice ⟨c, allocation, h⟩
    have hparse := ZstdParser.parse_compress (p := p) h choice
    cases hresize : p.buffer.resize data.length choice with
    | none =>
      rw [hresize] at hparse
      exact .inl hparse
    | some buffer =>
      rw [hresize] at hparse
      exact .inr hparse

/-- `create_compressor_factory` and `create_parser_factory`, without streaming. -/
def datagramCodec (C : ZstdCompression Z) (fresh : Nat → UInt8) :
    Config.CompressionType → DatagramCodec
  | .none => plainDatagrams
  | .zstd => zstdDatagrams C fresh

end MpRpc.Udp
