import MpRpc.Fallible
import MpRpc.Message

/-!
# Message — messages in Python

The objects that `msgpack.unpackb` gives and `validate_message` of
`_message_validation.py`. A `str` is represented by its UTF-8 bytes, a `dict`
by its items in their order and a `float` by its bits. A `bool` is an instance
of `int`, as the checks of the source see it.
-/

namespace MpRpc.Python

open Msgpack

/-- A Python object of the types that msgpack reads and writes. -/
inductive PyObject where
  | none
  | bool (b : Bool)
  | int (n : Int)
  | float (bits : UInt64)
  | str (s : Bytes)
  | bytes (s : Bytes)
  | ext (type : UInt8) (data : Bytes)
  | list (xs : List PyObject)
  | dict (kvs : List (PyObject × PyObject))

instance : Inhabited PyObject := ⟨.none⟩

/-- The value of an object for which `isinstance(x, int)` holds. -/
def PyObject.asInt : PyObject → Option Int
  | .int n => some n
  | .bool b => some (if b then 1 else 0)
  | _ => Option.none

/-- The bits of a `float` with the value of a float of 32 bits. -/
def widen (bits : UInt32) : UInt64 :=
  let sign := bits.toNat / 2 ^ 31
  let exponent := bits.toNat / 2 ^ 23 % 2 ^ 8
  let fraction := bits.toNat % 2 ^ 23
  .ofNat (sign * 2 ^ 63 +
    if exponent = 0 then
      if fraction = 0 then 0
      else
        -- a subnormal number is a normal one here
        (fraction.log2 + 874) * 2 ^ 52 + (fraction - 2 ^ fraction.log2) * 2 ^ (52 - fraction.log2)
    else if exponent = 255 then
      -- a NaN becomes a quiet one
      2047 * 2 ^ 52 + if fraction = 0 then 0 else 2 ^ 51 + fraction % 2 ^ 22 * 2 ^ 29
    else (exponent + 896) * 2 ^ 52 + fraction * 2 ^ 29)

example : widen 0x3F800000 = 0x3FF0000000000000 ∧ widen 1 = 0x36A0000000000000 := by decide +kernel

def ofScalar : Scalar → PyObject
  | .nil => .none
  | .boolean b => .bool b
  | .positiveInteger n => .int n.toNat
  | .negativeInteger k => .int (-1 - k.val)
  | .float32 bits => .float (widen bits)
  | .float64 bits => .float bits
  | .str s => .str s
  | .bin s => .bytes s
  | .ext type data => .ext type data

/-- Two keys that `unpackb` takes are the same. -/
def PyObject.sameKey : PyObject → PyObject → Bool
  | .str s, .str s' => s = s'
  | .bytes s, .bytes s' => s = s'
  | _, _ => false

/-- The items of a `dict` in which the item of `k` was set first, and then those of `d`. -/
def dictCons (k v : PyObject) (d : List (PyObject × PyObject)) : List (PyObject × PyObject) :=
  match d.find? fun p => k.sameKey p.1 with
  | some p => (k, p.2) :: d.filter fun p => !k.sameKey p.1
  | none => (k, v) :: d

mutual
/-- A msgpack object as Python reads it. -/
def ofObject : Object → PyObject
  | .scalar s => ofScalar s
  | .array xs => .list (ofObjects xs)
  | .map kvs => .dict (ofPairs kvs)

def ofObjects : List Object → List PyObject
  | [] => []
  | x :: xs => ofObject x :: ofObjects xs

def ofPairs : List (Object × Object) → List (PyObject × PyObject)
  | [] => []
  | (k, v) :: kvs => dictCons (ofObject k) (ofObject v) (ofPairs kvs)
end

/-! ## `_message_validation.py` -/

/-- `Request`, `Response` and `Notification`. -/
inductive PyMessage where
  | request (msgid : PyObject) (method : Bytes) (params : List PyObject)
  | response (msgid error result : PyObject)
  | notification (method : Bytes) (params : List PyObject)

/-- The exception of `_make_parse_error`: its text and the data shown in it. -/
structure ParseError where
  message : String
  data : PyObject

/-- `_validate_msgid` with `is_valid_msgid`. -/
def validateMsgid (msgid data : PyObject) : Except ParseError Unit :=
  match msgid.asInt with
  | none => .error ⟨"message ID must be an integer", data⟩
  | some n =>
      if 0 ≤ n ∧ n ≤ 2 ^ 32 - 1 then .ok ()
      else .error ⟨s!"invalid message ID value {n}", data⟩

/-- `_validate_method`; the name is returned. -/
def validateMethod (method data : PyObject) : Except ParseError Bytes :=
  match method with
  | .str s => .ok s
  | _ => .error ⟨"method name must be a string", data⟩

/-- `_validate_params`; the list is returned. -/
def validateParams (params data : PyObject) : Except ParseError (List PyObject) :=
  match params with
  | .list xs => .ok xs
  | _ => .error ⟨"parameters must be a list", data⟩

/-- `_validate_request`. -/
def validateRequest (data : List PyObject) : Except ParseError PyMessage :=
  match data with
  | [_, msgid, method, params] => do
      validateMsgid msgid (.list data)
      let method ← validateMethod method (.list data)
      let params ← validateParams params (.list data)
      return .request msgid method params
  | _ => .error ⟨"request message must have four elements", .list data⟩

/-- `_validate_response`. -/
def validateResponse (data : List PyObject) : Except ParseError PyMessage :=
  match data with
  | [_, msgid, error, result] => do
      validateMsgid msgid (.list data)
      return .response msgid error result
  | _ => .error ⟨"response message must have four elements", .list data⟩

/-- `_validate_notification`. -/
def validateNotification (data : List PyObject) : Except ParseError PyMessage :=
  match data with
  | [_, method, params] => do
      let method ← validateMethod method (.list data)
      let params ← validateParams params (.list data)
      return .notification method params
  | _ => .error ⟨"notification message must have four elements", .list data⟩

/-- `validate_message`. -/
def validateMessage (data : PyObject) : Except ParseError PyMessage :=
  match data with
  | .list [] => .error ⟨"message must have three or four elements", data⟩
  | .list (type :: rest) =>
      match type.asInt with
      | none => .error ⟨"the first element in the message must an integer", data⟩
      | some n =>
          if n = 0 then validateRequest (type :: rest)
          else if n = 1 then validateResponse (type :: rest)
          else if n = 2 then validateNotification (type :: rest)
          else .error ⟨s!"invalid message type {n}", data⟩
  | _ => .error ⟨"message must be a list", data⟩

/-! ## The grammar -/

/-- What `validate_message` accepts, and what it makes of it. -/
inductive Validates : PyObject → PyMessage → Prop where
  | request {type msgid : PyObject} {method : Bytes} {params : List PyObject} {n : Int}
      (htype : type.asInt = some 0) (hid : msgid.asInt = some n) (hn : 0 ≤ n ∧ n ≤ 2 ^ 32 - 1) :
      Validates (.list [type, msgid, .str method, .list params]) (.request msgid method params)
  | response {type msgid error result : PyObject} {n : Int}
      (htype : type.asInt = some 1) (hid : msgid.asInt = some n) (hn : 0 ≤ n ∧ n ≤ 2 ^ 32 - 1) :
      Validates (.list [type, msgid, error, result]) (.response msgid error result)
  | notification {type : PyObject} {method : Bytes} {params : List PyObject}
      (htype : type.asInt = some 2) :
      Validates (.list [type, .str method, .list params]) (.notification method params)

theorem validateMsgid_ok_iff {msgid data : PyObject} {u : Unit} :
    validateMsgid msgid data = .ok u ↔ ∃ n, msgid.asInt = some n ∧ 0 ≤ n ∧ n ≤ 2 ^ 32 - 1 := by
  unfold validateMsgid
  cases h : msgid.asInt with
  | none => simp
  | some n =>
    by_cases hn : 0 ≤ n ∧ n ≤ 2 ^ 32 - 1
    · simp [hn]
    · simp only [hn, if_false, Option.some.injEq, exists_eq_left', reduceCtorEq]

theorem validateMethod_ok_iff {method data : PyObject} {s : Bytes} :
    validateMethod method data = .ok s ↔ method = .str s := by
  unfold validateMethod
  split <;> simp_all

theorem validateParams_ok_iff {params data : PyObject} {xs : List PyObject} :
    validateParams params data = .ok xs ↔ params = .list xs := by
  unfold validateParams
  split <;> simp_all

theorem validateRequest_ok {data : List PyObject} {type : PyObject} {rest : List PyObject}
    (hdata : data = type :: rest) {msg : PyMessage} (htype : type.asInt = some 0)
    (h : validateRequest data = .ok msg) : Validates (.list data) msg := by
  unfold validateRequest at h
  split at h
  · simp only [Fallible.bind_eq_ok_iff, validateMsgid_ok_iff, validateMethod_ok_iff,
      validateParams_ok_iff, pure, Except.pure, Except.ok.injEq] at h
    obtain ⟨-, ⟨n, hid, hn⟩, method, rfl, params, rfl, rfl⟩ := h
    cases hdata
    exact .request htype hid hn
  · cases h

theorem validateResponse_ok {data : List PyObject} {type : PyObject} {rest : List PyObject}
    (hdata : data = type :: rest) {msg : PyMessage} (htype : type.asInt = some 1)
    (h : validateResponse data = .ok msg) : Validates (.list data) msg := by
  unfold validateResponse at h
  split at h
  · simp only [Fallible.bind_eq_ok_iff, validateMsgid_ok_iff, pure, Except.pure,
      Except.ok.injEq] at h
    obtain ⟨-, ⟨n, hid, hn⟩, rfl⟩ := h
    cases hdata
    exact .response htype hid hn
  · cases h

theorem validateNotification_ok {data : List PyObject} {type : PyObject} {rest : List PyObject}
    (hdata : data = type :: rest) {msg : PyMessage} (htype : type.asInt = some 2)
    (h : validateNotification data = .ok msg) : Validates (.list data) msg := by
  unfold validateNotification at h
  split at h
  · simp only [Fallible.bind_eq_ok_iff, validateMethod_ok_iff, validateParams_ok_iff, pure,
      Except.pure, Except.ok.injEq] at h
    obtain ⟨method, rfl, params, rfl, rfl⟩ := h
    cases hdata
    exact .notification htype
  · cases h

/-- **The grammar**: `validate_message` accepts exactly the messages of the
grammar. -/
theorem validateMessage_ok_iff {data : PyObject} {msg : PyMessage} :
    validateMessage data = .ok msg ↔ Validates data msg := by
  constructor
  · intro h
    unfold validateMessage at h
    split at h
    · cases h
    · split at h
      · cases h
      · rename_i n htype
        split at h
        · rename_i hn
          exact validateRequest_ok rfl (hn ▸ htype) h
        · split at h
          · rename_i hn
            exact validateResponse_ok rfl (hn ▸ htype) h
          · split at h
            · rename_i hn
              exact validateNotification_ok rfl (hn ▸ htype) h
            · cases h
    · cases h
  · intro h
    cases h with
    | request htype hid hn =>
      simp only [validateMessage, htype, if_true, validateRequest, Fallible.bind_eq_ok_iff]
      exact ⟨(), validateMsgid_ok_iff.mpr ⟨_, hid, hn⟩, _, rfl, _, rfl, rfl⟩
    | response htype hid hn =>
      simp only [validateMessage, htype, one_ne_zero, if_false, if_true, validateResponse,
        Fallible.bind_eq_ok_iff]
      exact ⟨(), validateMsgid_ok_iff.mpr ⟨_, hid, hn⟩, rfl⟩
    | notification htype =>
      simp only [validateMessage, htype, validateNotification]
      rfl

end MpRpc.Python
