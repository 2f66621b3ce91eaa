import MpRpc.ErrorInfo
import MpRpc.Msgpack.Parse

/-!
# FormatMessage — messages as text for the log

`format_message` hands the bytes of a message to `msgpack::parse` with a visitor
that writes every value it is told about to a string. A callback answers whether
the parser is to go on; it ends the parsing, with the mark `" ..."`, when the text
has come near the limit. The parser calls the visitor in the order of its events
up to the first answer "no", and reports an error only if it was not ended before.

How `fmt` writes a floating point number is a parameter. The size of a
`std::string` is far below `2 ^ 64`, so sums with it do not wrap around; the
products with the 32-bit size of an object do.
-/

namespace MpRpc

open Msgpack

/-- What `fmt::format` makes of a `float` with `"{:.6}F"` and of a `double` with
`"{:.12}"`. -/
structure FloatFormat where
  float32 : UInt32 → Bytes
  float64 : UInt64 → Bytes

/-! ## Pieces of text -/

/-- `fmt::format("{}", value)` of an integer. -/
def formatInteger : Int → Bytes
  | .ofNat n => (Nat.toDigits 10 n).map fun c => UInt8.ofNat c.toNat
  | .negSucc n => ascii "-" ++ (Nat.toDigits 10 (n + 1)).map fun c => UInt8.ofNat c.toNat

/-- The two digits that `format_hex` writes for a byte. -/
def hexDigits (value : UInt8) : Bytes :=
  let hex := ascii "0123456789ABCDEF"
  [hex.getD (value >>> 4).toNat 0, hex.getD (value &&& 0b00001111).toNat 0]

/-- `format_hex` -/
def formatHex (ptr : Bytes) (size limit : Nat) : Bytes :=
  (ptr.take (min size (limit / 2))).flatMap hexDigits

/-! ## The visitor -/

namespace FormattingVisitor

section

variable (lenLimit : Nat)

/-- `check_length`: whether to go on, and the text. -/
def checkLength (msg : Bytes) : Bool × Bytes :=
  if lenLimit ≤ msg.length + 4 then (false, msg ++ ascii " ...") else (true, msg)

/-- The size test with which `visit_str`, `visit_bin` and `visit_ext` begin. The
product is a 32-bit number. -/
def refuses (msg : Bytes) (size : UInt32) : Bool := lenLimit < msg.length + (size * 2).toNat

/-- `visit_str` -/
def visitStr (msg ptr : Bytes) (size : UInt32) : Bool × Bytes :=
  if refuses lenLimit msg size then (false, msg ++ ascii " ...")
  else checkLength lenLimit (msg ++ ascii "\"" ++ ptr.take size.toNat ++ ascii "\"")

/-- The common body of `visit_bin` and `visit_ext`. -/
def visitHex (name : String) (msg ptr : Bytes) (size : UInt32) : Bool × Bytes :=
  if refuses lenLimit msg size then (false, msg ++ ascii " ...")
  else checkLength lenLimit (msg ++ ascii name ++ formatHex ptr size.toNat lenLimit ++ ascii ")")

/-- `visit_bin` -/
def visitBin : Bytes → Bytes → UInt32 → Bool × Bytes := visitHex lenLimit "hex("

/-- `visit_ext`, which is given the type byte and the data. -/
def visitExt : Bytes → Bytes → UInt32 → Bool × Bytes := visitHex lenLimit "ext("

/-- The text without a comma at its end. -/
def popComma (msg : Bytes) : Bytes :=
  if msg.getLast? = some 0x2c then msg.dropLast else msg

/-- `end_array` -/
def endArray (msg : Bytes) : Bool × Bytes := checkLength lenLimit (popComma msg ++ ascii "]")

/-- `end_map` -/
def endMap (msg : Bytes) : Bool × Bytes := checkLength lenLimit (popComma msg ++ ascii "\x7d")

end

/-- The callback for a value; the sizes are cast to `std::uint32_t`. -/
def visitScalar (floats : FloatFormat) (lenLimit : Nat) (msg : Bytes) : Scalar → Bool × Bytes
  | .nil => checkLength lenLimit (msg ++ ascii "nil")
  | .boolean value => checkLength lenLimit (msg ++ ascii (if value then "true" else "false"))
  | .positiveInteger value => checkLength lenLimit (msg ++ formatInteger value.toNat)
  | .negativeInteger k => checkLength lenLimit (msg ++ formatInteger (-1 - k.val))
  | .float32 bits => checkLength lenLimit (msg ++ floats.float32 bits)
  | .float64 bits => checkLength lenLimit (msg ++ floats.float64 bits)
  | .str ptr => visitStr lenLimit msg ptr (UInt32.ofNat ptr.length)
  | .bin ptr => visitBin lenLimit msg ptr (UInt32.ofNat ptr.length)
  | .ext type ptr => visitExt lenLimit msg (type :: ptr) (UInt32.ofNat (ptr.length + 1))

/-- One callback; those that `formatting_visitor` does not define come from
`null_visitor`. -/
def visit (floats : FloatFormat) (lenLimit : Nat) (msg : Bytes) : Event → Bool × Bytes
  | .scalar s => visitScalar floats lenLimit msg s
  | .startArray _ => checkLength lenLimit (msg ++ ascii "[")
  | .endArrayItem => checkLength lenLimit (msg ++ ascii ",")
  | .endArray => endArray lenLimit msg
  | .startMap _ => checkLength lenLimit (msg ++ ascii "\x7b")
  | .endMapKey => checkLength lenLimit (msg ++ ascii ":")
  | .endMapValue => checkLength lenLimit (msg ++ ascii ",")
  | .endMap => endMap lenLimit msg
  | .startArrayItem => (true, msg)
  | .startMapKey => (true, msg)
  | .startMapValue => (true, msg)

/-- The callbacks of `msgpack::parse`, up to the first that ends it. -/
def visitAll (floats : FloatFormat) (lenLimit : Nat) : Bytes → List Event → Bool × Bytes
  | msg, [] => (true, msg)
  | msg, e :: es =>
      match visit floats lenLimit msg e with
      | (false, msg) => (false, msg)
      | (true, msg) => visitAll floats lenLimit msg es

end FormattingVisitor

/-- The text for data that is no msgpack object. -/
def invalidData (data : MessageData) (lengthLimit : Nat) : Bytes :=
  let invalidDataStrSize := 14
  let limit := max lengthLimit invalidDataStrSize - invalidDataStrSize
  ascii "invalid_data(" ++ formatHex data data.length limit ++ ascii ")"

/-- `format_message` -/
def formatMessage (floats : FloatFormat) (data : MessageData) (lengthLimit : Nat) : Bytes :=
  match FormattingVisitor.visitAll floats lengthLimit [] (parseEvents data).1 with
  -- `PARSE_STOP_VISITOR` is no error
  | (false, formattedData) => formattedData
  | (true, formattedData) =>
      match (parseEvents data).2 with
      | .success _ => formattedData
      -- `insufficient_bytes` and `parse_error` both throw
      | .more => invalidData data lengthLimit
      | .parseError => invalidData data lengthLimit

end MpRpc
