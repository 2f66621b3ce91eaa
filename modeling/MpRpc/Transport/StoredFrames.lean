import MpRpc.FrameDecoder
import MpRpc.Msgpack.Wire

/-!
# StoredFrames — zstd frames of stored blocks

The zstd format, as far as the blocks of a frame hold the content as it is. That is how zstd
compresses a content that it cannot make smaller, such as a short message: the header of the
frame declares the size of the content, and each block has a header of three bytes. Blocks of
another kind, dictionaries and checksums are refused here.
-/

namespace MpRpc.Transport.StoredFrames

open Msgpack (storeBe loadBe)

/-- `MEM_writeLE16`, `MEM_writeLE24` and so on. -/
def storeLe (w n : Nat) : Bytes := (storeBe w n).reverse

def loadLe (bs : Bytes) : Nat := loadBe bs.reverse

@[simp] theorem length_storeLe (w n : Nat) : (storeLe w n).length = w := by simp [storeLe]

theorem loadLe_storeLe {w n : Nat} (h : n < 256 ^ w) : loadLe (storeLe w n) = n := by
  rw [loadLe, storeLe, List.reverse_reverse, Msgpack.loadBe_storeBe h]

/-! ## The header of a frame -/

/-- The number of bytes of the header behind the descriptor: a window, unless the frame is a
single segment, and the size of the content. -/
def fieldSize (descriptor : UInt8) : Nat :=
  let single := descriptor.toNat / 32 % 2
  (1 - single) +
    match descriptor.toNat / 64 with
    | 0 => single
    | 1 => 2
    | 2 => 4
    | _ => 8

/-- The size of the content, if the header has it. -/
def contentSize (descriptor : UInt8) (field : Bytes) : Option Nat :=
  let single := descriptor.toNat / 32 % 2
  let size := loadLe (field.drop (1 - single))
  match descriptor.toNat / 64 with
  | 0 => if single = 1 then some size else none
  | 1 => some (size + 256)
  | _ => some size

/-- `ZSTD_MAGICNUMBER` -/
def magicNumber : Bytes := [0x28, 0xB5, 0x2F, 0xFD]

/-- `ZSTD_getFrameHeader`: the size of the content; `none` if bytes are missing. -/
def getFrameHeader : Bytes → Option (Except String (Option Nat))
  | a :: b :: c :: d :: descriptor :: field =>
      if [a, b, c, d] ≠ magicNumber then some (.error "Unknown frame descriptor")
      else if descriptor.toNat % 32 ≠ 0 then some (.error "Unsupported frame parameter")
      else if field.length < fieldSize descriptor then none
      else some (.ok (contentSize descriptor (field.take (fieldSize descriptor))))
  | _ => none

/-- `ZSTD_CONTENTSIZE_ERROR`; the sizes below it can be declared. -/
def contentSizeError : Nat := 2 ^ 64 - 2

/-- The header of a frame with a content of `n` bytes. A long content has a window of 128
KiB. -/
def header (n : Nat) : Bytes :=
  magicNumber ++
    if n < 256 then 0x20 :: storeLe 1 n
    else if n < contentSizeError then 0xC0 :: 0x38 :: storeLe 8 n
    else [0x00, 0x38]

/-- The size that the header of a content of `n` bytes declares. -/
def declared (n : Nat) : Option Nat := if n < contentSizeError then some n else none

theorem header_eq (n : Nat) :
    ∃ descriptor field, header n = 0x28 :: 0xB5 :: 0x2F :: 0xFD :: descriptor :: field ∧
      descriptor.toNat % 32 = 0 ∧ field.length = fieldSize descriptor ∧
      contentSize descriptor field = declared n := by
  unfold header declared
  by_cases hsmall : n < 256
  · refine ⟨0x20, storeLe 1 n, by rw [if_pos hsmall]; rfl, rfl, length_storeLe 1 n, ?_⟩
    have hsize : loadLe ((storeLe 1 n).drop 0) = n := loadLe_storeLe hsmall
    have hlt : n < contentSizeError := by
      unfold contentSizeError
      omega
    rw [if_pos hlt]
    exact congrArg some hsize
  · rw [if_neg hsmall]
    by_cases hlt : n < contentSizeError
    · refine ⟨0xC0, 0x38 :: storeLe 8 n, by rw [if_pos hlt]; rfl, rfl, ?_, ?_⟩
      · rw [List.length_cons, length_storeLe]
        rfl
      · have hsize : loadLe ((0x38 :: storeLe 8 n).drop 1) = n := by
          refine loadLe_storeLe ?_
          unfold contentSizeError at hlt
          omega
        rw [if_pos hlt]
        exact congrArg some hsize
    · exact ⟨0x00, [0x38], by rw [if_neg hlt]; rfl, rfl, rfl, by rw [if_neg hlt]; rfl⟩

/-- The header of a frame is read back. -/
theorem getFrameHeader_header (n : Nat) (more : Bytes) :
    getFrameHeader (header n ++ more) = some (.ok (declared n)) := by
  obtain ⟨descriptor, field, hheader, hvalid, hlength, hsize⟩ := header_eq n
  have hfield : (field ++ more).take (fieldSize descriptor) = field := by
    rw [← hlength, List.take_left]
  have henough : ¬ (field ++ more).length < fieldSize descriptor := by
    rw [List.length_append]
    omega
  rw [hheader]
  simp only [List.cons_append, getFrameHeader, magicNumber, ne_eq, not_true_eq_false, if_false,
    hvalid, henough, hfield, hsize]

/-- A part of the header is not enough. -/
theorem getFrameHeader_part {n : Nat} {seen rest : Bytes} (h : seen ++ rest = header n)
    (hrest : rest ≠ []) : getFrameHeader seen = none := by
  obtain ⟨descriptor, field, hheader, hvalid, hlength, -⟩ := header_eq n
  rw [hheader] at h
  have hpos := List.length_pos_iff.mpr hrest
  rcases seen with _ | ⟨a, _ | ⟨b, _ | ⟨c, _ | ⟨d, _ | ⟨e, seen⟩⟩⟩⟩⟩
  all_goals try rfl
  simp only [List.cons_append, List.cons.injEq] at h
  obtain ⟨rfl, rfl, rfl, rfl, rfl, rfl⟩ := h
  rw [List.length_append] at hlength
  have hmissing : seen.length < fieldSize e := by omega
  simp only [getFrameHeader, magicNumber, ne_eq, not_true_eq_false, if_false, hvalid, hmissing,
    if_true]

/-! ## The decoder -/

/-- `ZSTD_BLOCKSIZE_MAX` -/
def blockSizeMax : Nat := 2 ^ 17

theorem blockSizeMax_pos : 0 < blockSizeMax := by decide

/-- The header of a block of `size` bytes that are stored. -/
def blockHeader (last : Bool) (size : Nat) : Bytes := storeLe 3 (last.toNat + 8 * size)

/-- Where the decoder stands. `size` is what the header has declared, and `decoded` the
number of bytes given out. -/
inductive Context where
  /-- `seen` of the header of a frame has been read -/
  | header (seen : Bytes)
  /-- `seen` of the header of a block has been read -/
  | blockHeader (size : Option Nat) (decoded : Nat) (seen : Bytes)
  /-- `left` bytes of a block are to come behind the next one -/
  | block (size : Option Nat) (decoded : Nat) (last : Bool) (left : Nat)

/-- A block has ended, and with the last one the frame. -/
def endBlock (size : Option Nat) (decoded : Nat) (last : Bool) (output : Option UInt8) :
    Except String (Stepped Context UInt8) :=
  if last then
    if size.all (· = decoded) then .ok { context := .header [], output, ended := true }
    else .error "Corrupted block detected"
  else .ok { context := .blockHeader size decoded [], output }

/-- A block begins; an empty one has ended. -/
def startBlock (size : Option Nat) (decoded : Nat) (last : Bool) :
    Nat → Except String (Stepped Context UInt8)
  | 0 => endBlock size decoded last none
  | left + 1 => .ok { context := .block size decoded last left }

/-- One byte is read. -/
def step : Context → UInt8 → Except String (Stepped Context UInt8)
  | .header seen, x =>
      match getFrameHeader (seen ++ [x]) with
      | none => .ok { context := .header (seen ++ [x]) }
      | some (.error name) => .error name
      | some (.ok size) => .ok { context := .blockHeader size 0 [] }
  | .blockHeader size decoded seen, x =>
      if seen.length < 2 then .ok { context := .blockHeader size decoded (seen ++ [x]) }
      else
        let value := loadLe (seen ++ [x])
        if value / 2 % 4 ≠ 0 ∨ blockSizeMax < value / 8 then .error "Corrupted block detected"
        else startBlock size decoded (value % 2 = 1) (value / 8)
  | .block size decoded last 0, x => endBlock size (decoded + 1) last (some x)
  | .block size decoded last (left + 1), x =>
      .ok { context := .block size (decoded + 1) last left, output := some x }

/-! ## Frames -/

/-- The blocks of a frame. Only the block of an empty content is empty. -/
inductive IsBlocks : (content body : Bytes) → Prop where
  | last {data : Bytes} (hle : data.length ≤ blockSizeMax) :
      IsBlocks data (blockHeader true data.length ++ data)
  | more {data content body : Bytes} (hdata : data ≠ []) (hle : data.length ≤ blockSizeMax)
      (hcontent : content ≠ []) (h : IsBlocks content body) :
      IsBlocks (data ++ content) (blockHeader false data.length ++ (data ++ body))

/-- A frame with this content. -/
def IsFrame (content frame : Bytes) : Prop :=
  ∃ body, IsBlocks content body ∧ frame = header content.length ++ body

/-- What follows a block: nothing, or further blocks. -/
def Follows (last : Bool) (out body : Bytes) : Prop :=
  if last then out = [] ∧ body = [] else out ≠ [] ∧ IsBlocks out body

/-- Inside a frame of which `rest` is still to be read and `out` to be given out. -/
inductive InFrame (content : Bytes) : Context → Bytes → Bytes → Prop where
  | header {seen rest body : Bytes} (hseen : seen ++ rest = StoredFrames.header content.length)
      (hrest : rest ≠ []) (h : IsBlocks content body) :
      InFrame content (.header seen) (rest ++ body) content
  | blockHeader {decoded : Nat} {seen rest out : Bytes} (h : IsBlocks out (seen ++ rest))
      (hseen : seen.length < 3) (hdecoded : decoded + out.length = content.length)
      (hout : content ≠ [] → out ≠ []) :
      InFrame content (.blockHeader (declared content.length) decoded seen) rest out
  | block {decoded left : Nat} {last : Bool} {data body out : Bytes}
      (h : Follows last out body) (hdata : data.length = left + 1)
      (hdecoded : decoded + data.length + out.length = content.length) :
      InFrame content (.block (declared content.length) decoded last left) (data ++ body)
        (data ++ out)

theorem length_blockHeader (last : Bool) (size : Nat) : (blockHeader last size).length = 3 :=
  length_storeLe 3 _

theorem loadLe_blockHeader {last : Bool} {size : Nat} (h : size ≤ blockSizeMax) :
    loadLe (blockHeader last size) = last.toNat + 8 * size := by
  refine loadLe_storeLe ?_
  have hlast := last.toNat_le
  unfold blockSizeMax at h
  omega

/-- The third byte of the header of a block. -/
theorem step_blockHeader {seen : Bytes} {x : UInt8} {last : Bool} {n : Nat}
    (h : seen ++ [x] = blockHeader last n) (hle : n ≤ blockSizeMax) (size : Option Nat)
    (decoded : Nat) :
    step (.blockHeader size decoded seen) x = startBlock size decoded last n := by
  have hlength := congrArg List.length h
  rw [List.length_append, length_blockHeader, List.length_singleton] at hlength
  have hkind : ¬ ((last.toNat + 8 * n) / 2 % 4 ≠ 0 ∨ blockSizeMax < n) := by
    have hlast := last.toNat_le
    omega
  have hflag : decide ((last.toNat + 8 * n) % 2 = 1) = last := by
    cases last with
    | true => exact decide_eq_true (by rw [Bool.toNat_true]; omega)
    | false => exact decide_eq_false (by rw [Bool.toNat_false]; omega)
  have hsize : (last.toNat + 8 * n) / 8 = n := by
    have hlast := last.toNat_le
    omega
  have hshort : ¬ seen.length < 2 := by omega
  simp only [step, if_neg hshort, h, loadLe_blockHeader hle, hflag, hsize, if_neg hkind]

theorem IsBlocks.exists_block {content body : Bytes} (h : IsBlocks content body) :
    ∃ last data out tail, content = data ++ out ∧
      body = blockHeader last data.length ++ (data ++ tail) ∧ data.length ≤ blockSizeMax ∧
      Follows last out tail ∧ (content ≠ [] → data ≠ []) := by
  cases h with
  | last hle =>
    refine ⟨true, content, [], [], ?_, ?_, hle, ⟨rfl, rfl⟩, id⟩
    · rw [List.append_nil]
    · rw [List.append_nil]
  | more hdata hle hcontent h =>
    exact ⟨false, _, _, _, rfl, rfl, hle, ⟨hcontent, h⟩, fun _ => hdata⟩

/-- A block that has ended leads to the next one, or to the end of the frame. -/
theorem endBlock_of_follows {content out body : Bytes} {decoded : Nat} {last : Bool}
    (h : Follows last out body) (hdecoded : decoded + out.length = content.length)
    (output : Option UInt8) :
    ∃ next, endBlock (declared content.length) decoded last output = .ok next ∧
      next.output = output ∧
      (next.ended = true ∧ body = [] ∧ out = [] ∧ next.context = .header [] ∨
        next.ended = false ∧ InFrame content next.context body out) := by
  cases last with
  | true =>
    obtain ⟨rfl, rfl⟩ := h
    have hall : (declared content.length).all (· = decoded) = true := by
      unfold declared
      split
      · simpa using hdecoded.symm
      · rfl
    refine ⟨_, by rw [endBlock, if_pos rfl, if_pos hall], rfl, .inl ⟨rfl, rfl, rfl, rfl⟩⟩
  | false =>
    have hbody : IsBlocks out ([] ++ body) := h.2
    exact ⟨_, rfl, rfl, .inr ⟨rfl, .blockHeader hbody (by simp) hdecoded fun _ => h.1⟩⟩

/-- **Every byte of a frame leads on in it or ends it.** -/
theorem stepsInFrame (content : Bytes) :
    StepsInFrame step (· = .header []) (InFrame content) := by
  intro d rest out h
  cases h with
  | header hseen hrest h =>
    rename_i seen rest body
    obtain ⟨x, rest, rfl⟩ := List.exists_cons_of_ne_nil hrest
    rw [List.append_cons seen x rest] at hseen
    by_cases hlast : rest = []
    · subst hlast
      have hread := getFrameHeader_header content.length []
      rw [← hseen, List.append_nil, List.append_nil] at hread
      refine ⟨x, body, { context := .blockHeader (declared content.length) 0 [] }, content, rfl, ?_,
        rfl, .inr ⟨rfl, .blockHeader h (by simp) (Nat.zero_add _) id⟩⟩
      simp only [step, hread]
    · refine ⟨x, rest ++ body, { context := .header (seen ++ [x]) }, content, rfl, ?_, rfl,
        .inr ⟨rfl, .header hseen hlast h⟩⟩
      simp only [step, getFrameHeader_part hseen hlast]
  | blockHeader h hseen hdecoded hout =>
    rename_i decoded seen
    obtain ⟨last, data, out, tail, rfl, hbody, hle, hfollows, hdata⟩ := h.exists_block
    have hlength := length_blockHeader last data.length
    obtain ⟨x, rest, rfl⟩ : ∃ x rest', rest = x :: rest' := by
      refine List.exists_cons_of_ne_nil ?_
      rintro rfl
      have := congrArg List.length hbody
      simp only [List.length_append, List.length_nil] at this
      omega
    rw [List.append_cons seen x rest] at hbody
    by_cases hshort : seen.length < 2
    · refine ⟨x, rest, { context := .blockHeader _ decoded (seen ++ [x]) }, data ++ out, rfl, ?_,
        rfl, .inr ⟨rfl, .blockHeader ?_ (by simp; omega) hdecoded hout⟩⟩
      · simp only [step, if_pos hshort]
      · rwa [← List.append_cons seen x rest]
    · obtain ⟨hheader, rfl⟩ := List.append_inj hbody (by simp; omega)
      have hstep := step_blockHeader hheader hle (declared content.length) decoded
      cases data with
      | nil =>
        obtain ⟨next, hnext, houtput, hcases⟩ := endBlock_of_follows hfollows hdecoded none
        refine ⟨x, tail, next, out, rfl, hstep.trans hnext, ?_, hcases⟩
        rw [houtput]
        rfl
      | cons y data =>
        refine ⟨x, y :: data ++ tail, _, y :: data ++ out, rfl, hstep, rfl,
          .inr ⟨rfl, .block hfollows rfl ?_⟩⟩
        rw [← hdecoded, List.length_append, Nat.add_assoc]
  | block h hdata hdecoded =>
    rename_i decoded left last data body out
    obtain ⟨x, data, rfl⟩ := List.exists_cons_of_length_eq_add_one hdata
    have hlength : data.length = left := Nat.succ_injective hdata
    cases left with
    | zero =>
      obtain rfl := List.eq_nil_of_length_eq_zero hlength
      have hone : decoded + 1 + out.length = content.length := hdecoded
      obtain ⟨next, hnext, houtput, hcases⟩ := endBlock_of_follows h hone (some x)
      refine ⟨x, body, next, out, rfl, hnext, ?_, hcases⟩
      rw [houtput]
      rfl
    | succ left =>
      refine ⟨x, data ++ body, _, data ++ out, rfl, rfl, rfl, .inr ⟨rfl, .block h hlength ?_⟩⟩
      rw [← hdecoded, List.length_cons]
      omega

theorem IsFrame.enter {content frame : Bytes} (h : IsFrame content frame) :
    InFrame content (.header []) frame content := by
  obtain ⟨body, hbody, rfl⟩ := h
  refine .header rfl ?_ hbody
  simp [header, magicNumber]

/-- The last byte of a frame is the last one of its content. -/
theorem InFrame.out_ne_nil {content rest out : Bytes} {d : Context}
    (h : InFrame content d rest out) (hcontent : content ≠ []) : out ≠ [] := by
  cases h with
  | header hseen hrest h => exact hcontent
  | blockHeader h hseen hdecoded hout => exact hout hcontent
  | block h hdata hdecoded =>
    refine List.append_ne_nil_of_left_ne_nil ?_ _
    exact List.ne_nil_of_length_eq_add_one hdata

/-! ## The compressor -/

/-- The blocks of `data`; `fuel` bounds how many there are. -/
def blocks : Nat → Bytes → Bytes
  | 0, data => blockHeader true data.length ++ data
  | fuel + 1, data =>
      if data.length ≤ blockSizeMax then blockHeader true data.length ++ data
      else
        blockHeader false blockSizeMax ++
          (data.take blockSizeMax ++ blocks fuel (data.drop blockSizeMax))

/-- The frame of `data`. -/
def encode (data : Bytes) : Bytes := header data.length ++ blocks data.length data

theorem isBlocks_blocks {fuel : Nat} {data : Bytes} (h : data.length ≤ fuel + blockSizeMax) :
    IsBlocks data (blocks fuel data) := by
  induction fuel generalizing data with
  | zero => exact .last (by omega)
  | succ fuel ih =>
    rw [blocks]
    by_cases hle : data.length ≤ blockSizeMax
    · rw [if_pos hle]
      exact .last hle
    · have hpos := blockSizeMax_pos
      have htake : (data.take blockSizeMax).length = blockSizeMax := by
        rw [List.length_take]
        omega
      have hdrop : (data.drop blockSizeMax).length = data.length - blockSizeMax :=
        List.length_drop
      have hmore : IsBlocks (data.take blockSizeMax ++ data.drop blockSizeMax)
          (blockHeader false (data.take blockSizeMax).length ++
            (data.take blockSizeMax ++ blocks fuel (data.drop blockSizeMax))) := by
        refine .more ?_ (Nat.le_of_eq htake) ?_ (ih (by omega))
        · exact List.ne_nil_of_length_pos (by omega)
        · exact List.ne_nil_of_length_pos (by omega)
      rw [if_neg hle]
      rwa [List.take_append_drop, htake] at hmore

theorem isFrame_encode (data : Bytes) : IsFrame data (encode data) :=
  ⟨_, isBlocks_blocks (Nat.le_add_right _ _), rfl⟩

/-- The frame of `nil`. -/
example : encode [0xC0] = [0x28, 0xB5, 0x2F, 0xFD, 0x20, 0x01, 0x09, 0x00, 0x00, 0xC0] := by
  decide

/-- `ZSTD_compressBound` -/
def compressBound (n : Nat) : Nat :=
  n + n / 256 + if n < blockSizeMax then (blockSizeMax - n) / 2 ^ 11 else 0

theorem length_blocks_le (fuel : Nat) (data : Bytes) :
    (blocks fuel data).length ≤ data.length + 3 * (data.length / blockSizeMax + 1) := by
  have hmax : blockSizeMax = 131072 := rfl
  induction fuel generalizing data with
  | zero =>
    rw [blocks, List.length_append, length_blockHeader, Nat.mul_add]
    omega
  | succ fuel ih =>
    rw [blocks]
    by_cases hle : data.length ≤ blockSizeMax
    · rw [if_pos hle, List.length_append, length_blockHeader, Nat.mul_add]
      omega
    · have hrest := ih (data.drop blockSizeMax)
      rw [List.length_drop] at hrest
      rw [if_neg hle, List.length_append, List.length_append, length_blockHeader, List.length_take]
      rw [hmax] at hle hrest ⊢
      omega

theorem length_header_le (n : Nat) : (header n).length ≤ if n < 256 then 6 else 14 := by
  unfold header magicNumber
  split
  · simp
  · split
    · simp
    · simp

/-- A frame fits the room that `ZSTD_compressBound` asks for. -/
theorem length_encode_le (data : Bytes) : (encode data).length ≤ compressBound data.length := by
  have hheader := length_header_le data.length
  have hblocks := length_blocks_le data.length data
  have hmax : blockSizeMax = 131072 := rfl
  unfold compressBound
  rw [encode, List.length_append]
  rw [hmax] at hblocks ⊢
  split at hheader
  · rw [if_pos (by omega)]
    omega
  · split
    · omega
    · omega

/-! ## Whole inputs -/

/-- No frame is begun. -/
def Context.isStart : Context → Bool
  | .header [] => true
  | _ => false

/-- What the frames of an input hold. -/
def contentOf (frames : Bytes) : Except String Bytes :=
  decodeAll step Context.isStart (.header []) frames

/-- `ZSTD_decompressDCtx` -/
def decompress (capacity : Nat) (frames : Bytes) : Except String Bytes :=
  match contentOf frames with
  | .error name => .error name
  | .ok content =>
      if capacity < content.length then .error "Destination buffer is too small" else .ok content

/-- `ZSTD_getDecompressedSize`: zero if the size is not declared. -/
def getDecompressedSize (frames : Bytes) : Nat :=
  match getFrameHeader frames with
  | some (.ok (some n)) => if n < contentSizeError then n else 0
  | _ => 0

theorem decompress_eq_ok_iff {capacity : Nat} {frames out : Bytes} :
    decompress capacity frames = .ok out ↔
      contentOf frames = .ok out ∧ out.length ≤ capacity := by
  unfold decompress
  cases hcontent : contentOf frames with
  | error name => simp
  | ok content =>
    by_cases hroom : capacity < content.length
    · simp only [if_pos hroom, reduceCtorEq, Except.ok.injEq, false_iff, not_and]
      rintro rfl
      exact Nat.not_le.mpr hroom
    · simp only [if_neg hroom, Except.ok.injEq, iff_self_and]
      rintro rfl
      exact Nat.le_of_not_lt hroom

/-- `ZSTD_compress2`, into room for `capacity` bytes; a size that cannot be declared is
refused. -/
def compress (capacity : Nat) (data : Bytes) : Except String Bytes :=
  if data.length < contentSizeError ∧ (encode data).length ≤ capacity then .ok (encode data)
  else .error "Destination buffer is too small"

theorem compress_eq_ok_iff {capacity : Nat} {data frame : Bytes} :
    compress capacity data = .ok frame ↔
      encode data = frame ∧ data.length < contentSizeError ∧ frame.length ≤ capacity := by
  unfold compress
  split
  · rename_i h
    simp only [Except.ok.injEq, iff_self_and]
    rintro rfl
    exact h
  · rename_i h
    simp only [reduceCtorEq, false_iff]
    rintro ⟨rfl, hfits⟩
    exact h hfits

theorem contentOf_encode (data : Bytes) : contentOf (encode data) = .ok data := by
  have h : contentOf (encode data ++ []) = (contentOf []).map (data ++ ·) :=
    decodeAll_append (fun _ h => h) (stepsInFrame data) (isFrame_encode data).enter []
  rw [List.append_nil] at h
  exact h.trans (congrArg Except.ok (List.append_nil data))

theorem getDecompressedSize_encode {data : Bytes} (h : data.length < contentSizeError) :
    getDecompressedSize (encode data) = data.length := by
  simp only [getDecompressedSize, encode, getFrameHeader_header, declared, if_pos h]

end MpRpc.Transport.StoredFrames
