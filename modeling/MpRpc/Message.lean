import MpRpc.ErrorInfo
import MpRpc.Msgpack.Parse

/-!
# Message — the messages of the protocol

The `message` class, from the bytes of a message to its typed parts, and the
functions of `pack_data.h` that write messages. The fields and their defaults
are those of `message::inner_data`; the checks run in the order of the source
and throw its texts.
-/

namespace MpRpc

open Msgpack

/-- `msgid_t`. -/
abbrev Msgid := UInt32

/-- `msgtype`. -/
inductive MsgType where
  | request
  | response
  | notification
deriving DecidableEq, Repr

/-! ## Conversions of `msgpack::object` -/

/-- `as<msgtype>()`: `convert_integer<int>` of the underlying type. -/
def asInt : Object → Option Int
  | .scalar (.positiveInteger u64) =>
      if 2 ^ 31 - 1 < u64.toNat then none else some u64.toNat
  | .scalar (.negativeInteger k) =>
      if (-1 - k.val : Int) < -(2 ^ 31) then none else some (-1 - k.val)
  | _ => none

/-- `as<msgid_t>()`: `convert_integer<std::uint32_t>`. -/
def asMsgid : Object → Option Msgid
  | .scalar (.positiveInteger u64) =>
      if 2 ^ 32 - 1 < u64.toNat then none else some (UInt32.ofNat u64.toNat)
  | _ => none

/-- `as<std::string>()`. -/
def asString : Object → Option Bytes
  | .scalar (.str s) => some s
  | .scalar (.bin s) => some s
  | _ => none

/-! ## The class -/

/-- `message::inner_data`. `type` is `none` for the initial
`static_cast<msgtype>(-1)`, and the three object pointers start null. -/
structure Message where
  msgData : MessageData := []
  handle : Object := .nil
  type : Option MsgType := none
  msgid : Msgid := 0
  method : Bytes := []
  params : Option Object := none
  error : Option Object := none
  result : Option Object := none

namespace Message

/-- The error every failed check throws, with the offending object. -/
def invalid (handle : Object) (text : String) : ErrorInfo :=
  .of .invalidMessage text (some (pack handle))

/-- `message::parse_request`. -/
def parseRequest (msgData : MessageData) (handle : Object) :
    List Object → Except ErrorInfo Message
  | [_, id, name, params] =>
      match asMsgid id with
      | none => .error (invalid handle "message ID must a 32-but unsigned integer")
      | some msgid =>
          match asString name with
          | none => .error (invalid handle "method name must be a string")
          | some method =>
              match params with
              | .array _ =>
                  .ok { msgData, handle, type := some .request, msgid, method,
                        params := some params }
              | _ => .error (invalid handle "paramters must be an array")
  | _ => .error (invalid handle "request message must have 4 elements")

/-- `message::parse_response`. -/
def parseResponse (msgData : MessageData) (handle : Object) :
    List Object → Except ErrorInfo Message
  | [_, id, error, result] =>
      match asMsgid id with
      | none => .error (invalid handle "message ID must a 32-but unsigned integer")
      | some msgid =>
          .ok { msgData, handle, type := some .response, msgid,
                error := some error, result := some result }
  | _ => .error (invalid handle "response message must have 4 elements")

/-- `message::parse_notification`. -/
def parseNotification (msgData : MessageData) (handle : Object) :
    List Object → Except ErrorInfo Message
  | [_, name, params] =>
      match asString name with
      | none => .error (invalid handle "method name must be a string")
      | some method =>
          match params with
          | .array _ =>
              .ok { msgData, handle, type := some .notification, method,
                    params := some params }
          | _ => .error (invalid handle "paramters must be an array")
  | _ => .error (invalid handle "notification message must have 3 elements")

/-- `message::parse`. -/
def parse (msgData : MessageData) (handle : Object) : Except ErrorInfo Message :=
  match handle with
  | .array array =>
      match array with
      | type :: _ :: _ :: _ =>
          match asInt type with
          | none => .error (invalid handle "message type is not an integer")
          | some 0 => parseRequest msgData handle array
          | some 1 => parseResponse msgData handle array
          | some 2 => parseNotification msgData handle array
          | some _ => .error (invalid handle "invalid message type")
      | _ => .error (invalid handle "message must have at least 3 elements")
  | _ => .error (invalid handle "message is not an array")

/-- `message::message(const message_data&)`. Only `msgpack::parse_error` is
translated; the sibling `msgpack::insufficient_bytes` leaves as it is. -/
def ofData (data : MessageData) : Except StdException Message :=
  match unpack data with
  | .error .parseError => .error (.exception (.of .parseError "parse error of message"))
  | .error .insufficientBytes => .error .insufficientBytes
  | .ok handle =>
      match parse data handle with
      | .error info => .error (.exception info)
      | .ok msg => .ok msg

/-- `message::has_error`, which throws unless the message is a response. -/
def hasError (msg : Message) : Except ErrorInfo Bool :=
  match msg.type, msg.error with
  | some .response, some error =>
      .ok (match error with
        | .scalar .nil => false
        | _ => true)
  | _, _ => .error (invalid msg.handle "tried to access to error of message not a response")

end Message

/-! ## The grammar -/

/-- The grammar of messages: what the object is and what is read from it. -/
inductive Message.Parses (data : MessageData) : Object → Message → Prop where
  | request {type id name : Object} {params : List Object} {msgid : Msgid} {method : Bytes}
      (htype : asInt type = some 0) (hid : asMsgid id = some msgid)
      (hname : asString name = some method) :
      Parses data (.array [type, id, name, .array params])
        { msgData := data, handle := .array [type, id, name, .array params]
          type := some .request, msgid, method, params := some (.array params) }
  | response {type id error result : Object} {msgid : Msgid}
      (htype : asInt type = some 1) (hid : asMsgid id = some msgid) :
      Parses data (.array [type, id, error, result])
        { msgData := data, handle := .array [type, id, error, result]
          type := some .response, msgid, error := some error, result := some result }
  | notification {type name : Object} {params : List Object} {method : Bytes}
      (htype : asInt type = some 2) (hname : asString name = some method) :
      Parses data (.array [type, name, .array params])
        { msgData := data, handle := .array [type, name, .array params]
          type := some .notification, method, params := some (.array params) }

theorem Message.parses_of_parseRequest {data : MessageData} {type : Object} {rest : List Object}
    {msg : Message} (htype : asInt type = some 0)
    (h : parseRequest data (.array (type :: rest)) (type :: rest) = .ok msg) :
    Message.Parses data (.array (type :: rest)) msg := by
  unfold parseRequest at h
  split at h
  · rename_i heq
    split at h
    · cases h
    · rename_i hid
      split at h
      · cases h
      · rename_i hname
        split at h
        · cases h
          cases heq
          exact .request htype hid hname
        · cases h
  · cases h

theorem Message.parses_of_parseResponse {data : MessageData} {type : Object} {rest : List Object}
    {msg : Message} (htype : asInt type = some 1)
    (h : parseResponse data (.array (type :: rest)) (type :: rest) = .ok msg) :
    Message.Parses data (.array (type :: rest)) msg := by
  unfold parseResponse at h
  split at h
  · rename_i heq
    split at h
    · cases h
    · rename_i hid
      cases h
      cases heq
      exact .response htype hid
  · cases h

theorem Message.parses_of_parseNotification {data : MessageData} {type : Object}
    {rest : List Object} {msg : Message} (htype : asInt type = some 2)
    (h : parseNotification data (.array (type :: rest)) (type :: rest) = .ok msg) :
    Message.Parses data (.array (type :: rest)) msg := by
  unfold parseNotification at h
  split at h
  · rename_i heq
    split at h
    · cases h
    · rename_i hname
      split at h
      · cases h
        cases heq
        exact .notification htype hname
      · cases h
  · cases h

/-- **The grammar**: `parse` accepts exactly the messages of the grammar. -/
theorem Message.parse_ok_iff {data : MessageData} {o : Object} {msg : Message} :
    Message.parse data o = .ok msg ↔ Message.Parses data o msg := by
  constructor
  · intro h
    unfold Message.parse at h
    split at h
    · split at h
      · split at h
        · cases h
        · rename_i htype
          exact parses_of_parseRequest htype h
        · rename_i htype
          exact parses_of_parseResponse htype h
        · rename_i htype
          exact parses_of_parseNotification htype h
        · cases h
      · cases h
    · cases h
  · intro h
    cases h with
    | request htype hid hname => simp [Message.parse, parseRequest, htype, hid, hname]
    | response htype hid => simp [Message.parse, parseResponse, htype, hid]
    | notification htype hname => simp [Message.parse, parseNotification, htype, hname]

/-! ## `pack_data.h` -/

/-- `msgtype` as the integer it is packed as. -/
def MsgType.toObject : MsgType → Object
  | .request => .positiveInteger 0
  | .response => .positiveInteger 1
  | .notification => .positiveInteger 2

def msgidObject (id : Msgid) : Object := .positiveInteger id.toUInt64

def packRequest (id : Msgid) (method : Bytes) (params : List Object) : MessageData :=
  pack (.array [MsgType.request.toObject, msgidObject id, .str method, .array params])

def packResponse (id : Msgid) (result : Object) : MessageData :=
  pack (.array [MsgType.response.toObject, msgidObject id, .nil, result])

def packErrorResponse (id : Msgid) (error : Object) : MessageData :=
  pack (.array [MsgType.response.toObject, msgidObject id, error, .nil])

def packNotification (method : Bytes) (params : List Object) : MessageData :=
  pack (.array [MsgType.notification.toObject, .str method, .array params])

/-! ## Reading back what was packed -/

theorem Message.ofData_pack {o : Object} (h : o.Packable) :
    Message.ofData (pack o) =
      match Message.parse (pack o) o with
      | .error info => .error (.exception info)
      | .ok msg => .ok msg := by
  have hu : unpack (pack o) = .ok o := by simpa using unpack_pack h []
  simp only [Message.ofData, hu]

theorem Message.ofData_ok_iff {o : Object} (h : o.Packable) {msg : Message} :
    Message.ofData (pack o) = .ok msg ↔ Message.Parses (pack o) o msg := by
  rw [Message.ofData_pack h, ← Message.parse_ok_iff]
  cases Message.parse (pack o) o <;> simp

theorem asMsgid_msgidObject (id : Msgid) : asMsgid (msgidObject id) = some id := by
  have hlt := id.toNat_lt
  have hle : ¬ (2 ^ 32 - 1 < id.toNat) := by omega
  simp only [msgidObject, asMsgid, UInt32.toNat_toUInt64, hle, if_false, UInt32.ofNat_toNat]

/-- The message that a packed request is read as. -/
def Message.request (id : Msgid) (method : Bytes) (params : List Object) : Message where
  msgData := packRequest id method params
  handle := .array [MsgType.request.toObject, msgidObject id, .str method, .array params]
  type := some .request
  msgid := id
  method := method
  params := some (.array params)

/-- The message that a packed response is read as. -/
def Message.response (id : Msgid) (error result : Object) : Message where
  msgData := pack (.array [MsgType.response.toObject, msgidObject id, error, result])
  handle := .array [MsgType.response.toObject, msgidObject id, error, result]
  type := some .response
  msgid := id
  error := some error
  result := some result

theorem packable_msgidObject (id : Msgid) : (msgidObject id).Packable := by
  simp [msgidObject, Object.Packable, Object.tokens, Token.Sized]

theorem packable_toObject (type : MsgType) : type.toObject.Packable := by
  cases type <;> decide

theorem ofData_packRequest (id : Msgid) {method : Bytes} {params : List Object}
    (hmethod : method.length < 2 ^ 32) (hparams : (Object.array params).Packable) :
    Message.ofData (packRequest id method params) = .ok (Message.request id method params) := by
  have hstr : (Object.str method).Packable := by
    simpa [Object.Packable, Object.tokens, Token.Sized] using hmethod
  have hp : (Object.array [MsgType.request.toObject, msgidObject id, .str method,
      .array params]).Packable := by
    simp [Object.packable_array, packable_toObject,
      packable_msgidObject, hstr, hparams]
  have hparse : Message.parse (packRequest id method params) (.array [MsgType.request.toObject,
      msgidObject id, .str method, .array params]) = .ok (Message.request id method params) := by
    simp only [Message.parse, MsgType.toObject, asInt, Message.parseRequest,
      asMsgid_msgidObject, asString]
    rfl
  rw [packRequest, Message.ofData_pack hp, ← packRequest, hparse]

theorem ofData_packedResponse (id : Msgid) {error result : Object}
    (herror : error.Packable) (hresult : result.Packable) :
    Message.ofData (pack (.array [MsgType.response.toObject, msgidObject id, error, result])) =
      .ok (Message.response id error result) := by
  have hp : (Object.array [MsgType.response.toObject, msgidObject id, error, result]).Packable := by
    simp [Object.packable_array, packable_toObject, packable_msgidObject, herror, hresult]
  have hparse : Message.parse (pack (.array [MsgType.response.toObject, msgidObject id, error,
      result])) (.array [MsgType.response.toObject, msgidObject id, error, result]) =
      .ok (Message.response id error result) := by
    simp only [Message.parse, MsgType.toObject, asInt, Message.parseResponse, asMsgid_msgidObject]
    rfl
  rw [Message.ofData_pack hp, hparse]

end MpRpc
