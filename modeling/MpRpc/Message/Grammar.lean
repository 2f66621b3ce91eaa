import Mathlib
import MpRpc.Message

/-!
# Grammar — which objects are messages and what is read from them

`Content` is what a message says, apart from how it is written. An object denotes a
content if it is one of the three arrays of the protocol; the method name may be
written as a string or as binary data. The class `message` accepts the bytes of an
object exactly if the object denotes a content, and its accessors then return the
parts of this content.
-/

namespace MpRpc

open Msgpack

/-! ## The accessors -/

namespace Message

/-- `message::method` -/
def getMethod (msg : Message) : Except ErrorInfo Bytes :=
  if msg.type = some .response then
    .error (invalid msg.handle "tried to access to method name of response message")
  else .ok msg.method

/-- `message::params`; the object is `none` behind a null pointer. -/
def getParams (msg : Message) : Except ErrorInfo (Option Object) :=
  if msg.type = some .response then
    .error (invalid msg.handle "tried to access to parameters of response message")
  else .ok msg.params

/-- `message::error` -/
def getError (msg : Message) : Except ErrorInfo (Option Object) :=
  if msg.type ≠ some .response then
    .error (invalid msg.handle "tried to access to error of message not a response")
  else .ok msg.error

/-- `message::result` -/
def getResult (msg : Message) : Except ErrorInfo (Option Object) :=
  if msg.type ≠ some .response then
    .error (invalid msg.handle "tried to access to result of message not a response")
  else .ok msg.result

end Message

/-! ## What a message says -/

/-- The content of a message. -/
inductive Content where
  | request (id : Msgid) (method : Bytes) (params : List Object)
  | response (id : Msgid) (error result : Object)
  | notification (method : Bytes) (params : List Object)

namespace Content

/-- `[0, id, method, params]`, `[1, id, error, result]` or `[2, method, params]`. -/
inductive Denoted : Object → Content → Prop where
  | request (id : Msgid) {name : Object} {method : Bytes}
      (hname : name = .str method ∨ name = .bin method) (params : List Object) :
      Denoted (.array [.positiveInteger 0, .positiveInteger id.toUInt64, name, .array params])
        (.request id method params)
  | response (id : Msgid) (error result : Object) :
      Denoted (.array [.positiveInteger 1, .positiveInteger id.toUInt64, error, result])
        (.response id error result)
  | notification {name : Object} {method : Bytes}
      (hname : name = .str method ∨ name = .bin method) (params : List Object) :
      Denoted (.array [.positiveInteger 2, name, .array params]) (.notification method params)

/-- The accessors of the message return the content. -/
def ReadBy (msg : Message) : Content → Prop
  | .request id method params =>
      msg.type = some .request ∧ msg.msgid = id ∧ msg.getMethod = .ok method ∧
        msg.getParams = .ok (some (.array params))
  | .response id error result =>
      msg.type = some .response ∧ msg.msgid = id ∧ msg.getError = .ok (some error) ∧
        msg.getResult = .ok (some result)
  | .notification method params =>
      msg.type = some .notification ∧ msg.getMethod = .ok method ∧
        msg.getParams = .ok (some (.array params))

end Content

/-! ## The conversions -/

theorem asInt_eq_some {o : Object} {n : Nat} (hn : n < 2 ^ 31) :
    asInt o = some (n : Int) ↔ o = .positiveInteger (UInt64.ofNat n) := by
  constructor
  · intro h
    unfold asInt at h
    split at h
    · rename_i u64
      split at h
      · cases h
      · have heq : u64.toNat = n := by simpa using h
        rw [← heq, UInt64.ofNat_toNat]
    · split at h
      · cases h
      · simp only [Option.some.injEq] at h
        omega
    · cases h
  · rintro rfl
    have hu : (UInt64.ofNat n).toNat = n := by
      rw [UInt64.toNat_ofNat']
      omega
    simp only [asInt, hu]
    rw [if_neg (by omega)]

theorem asMsgid_eq_some {o : Object} {id : Msgid} :
    asMsgid o = some id ↔ o = .positiveInteger id.toUInt64 := by
  constructor
  · intro h
    unfold asMsgid at h
    split at h
    · rename_i u64
      split at h
      · cases h
      · cases h
        congr 2
        apply UInt64.toNat_inj.mp
        rw [UInt32.toNat_toUInt64, UInt32.toNat_ofNat']
        omega
    · cases h
  · rintro rfl
    exact asMsgid_msgidObject id

theorem asString_eq_some {o : Object} {s : Bytes} :
    asString o = some s ↔ o = .str s ∨ o = .bin s := by
  constructor
  · intro h
    unfold asString at h
    split at h
    · cases h
      exact .inl rfl
    · cases h
      exact .inr rfl
    · cases h
  · rintro (rfl | rfl)
    · rfl
    · rfl

/-! ## The grammar -/

/-- What is parsed denotes a content, and the accessors return it. -/
theorem Message.Parses.exists_denoted {data : MessageData} {o : Object} {msg : Message}
    (h : Message.Parses data o msg) : ∃ c, Content.Denoted o c ∧ c.ReadBy msg := by
  cases h with
  | request htype hid hname =>
    obtain rfl := (asInt_eq_some (by decide)).mp htype
    obtain rfl := asMsgid_eq_some.mp hid
    exact ⟨_, .request _ (asString_eq_some.mp hname) _, rfl, rfl, rfl, rfl⟩
  | response htype hid =>
    obtain rfl := (asInt_eq_some (by decide)).mp htype
    obtain rfl := asMsgid_eq_some.mp hid
    exact ⟨_, .response _ _ _, rfl, rfl, rfl, rfl⟩
  | notification htype hname =>
    obtain rfl := (asInt_eq_some (by decide)).mp htype
    exact ⟨_, .notification (asString_eq_some.mp hname) _, rfl, rfl, rfl⟩

/-- An object that denotes a content is parsed. -/
theorem Content.Denoted.exists_parses {o : Object} {c : Content} (h : Content.Denoted o c)
    (data : MessageData) : ∃ msg, Message.Parses data o msg ∧ c.ReadBy msg := by
  cases h with
  | request id hname params =>
    exact ⟨_, .request rfl (asMsgid_eq_some.mpr rfl) (asString_eq_some.mpr hname),
      rfl, rfl, rfl, rfl⟩
  | response id error result =>
    exact ⟨_, .response rfl (asMsgid_eq_some.mpr rfl), rfl, rfl, rfl, rfl⟩
  | notification hname params =>
    exact ⟨_, .notification rfl (asString_eq_some.mpr hname), rfl, rfl, rfl⟩

/-- The message that the bytes of the object are read as says the content. -/
theorem Content.Denoted.exists_ofData {o : Object} {c : Content} (h : Content.Denoted o c)
    (ho : o.Packable) : ∃ msg, Message.ofData (pack o) = .ok msg ∧ c.ReadBy msg := by
  obtain ⟨msg, hparses, hread⟩ := h.exists_parses (pack o)
  exact ⟨msg, (Message.ofData_ok_iff ho).mpr hparses, hread⟩

theorem Content.Denoted.readBy {o : Object} {c : Content} (h : Content.Denoted o c)
    (ho : o.Packable) {msg : Message} (hmsg : Message.ofData (pack o) = .ok msg) :
    c.ReadBy msg := by
  obtain ⟨msg', hmsg', hread⟩ := h.exists_ofData ho
  cases hmsg.symm.trans hmsg'
  exact hread

/-- **Acceptance**: exactly the objects that denote a content are messages. -/
theorem Message.accepted_iff {o : Object} (ho : o.Packable) :
    (∃ msg, Message.ofData (pack o) = .ok msg) ↔ ∃ c, Content.Denoted o c := by
  constructor
  · intro h
    obtain ⟨msg, hmsg⟩ := h
    obtain ⟨c, hdenoted, -⟩ := ((Message.ofData_ok_iff ho).mp hmsg).exists_denoted
    exact ⟨c, hdenoted⟩
  · intro h
    obtain ⟨c, hdenoted⟩ := h
    obtain ⟨msg, hmsg, -⟩ := hdenoted.exists_ofData ho
    exact ⟨msg, hmsg⟩

/-- A response has an error unless that is nil. -/
theorem Content.ReadBy.hasError {id : Msgid} {error result : Object} {msg : Message}
    (h : (Content.response id error result).ReadBy msg) :
    (error = .nil → msg.hasError = .ok false) ∧ (error ≠ .nil → msg.hasError = .ok true) := by
  obtain ⟨htype, -, herror, -⟩ := h
  have hfield : msg.error = some error := by
    simpa [Message.getError, htype] using herror
  constructor
  · rintro rfl
    simp [Message.hasError, htype, hfield, Object.nil]
  · intro hne
    cases error with
    | array xs => simp [Message.hasError, htype, hfield]
    | map kvs => simp [Message.hasError, htype, hfield]
    | scalar s =>
      cases s with
      | nil => exact absurd rfl hne
      | boolean | positiveInteger | negativeInteger | float32 | float64 | str | bin | ext =>
        simp [Message.hasError, htype, hfield]

/-! ## The packing functions -/

theorem packable_str {s : Bytes} (h : s.length < 2 ^ 32) : (Object.str s).Packable := by
  simpa [Object.Packable, Object.tokens, Token.Sized] using h

/-- **Grammar and round trip.** The bytes of an object are a message exactly if the object
is one of the three arrays of the protocol, and the accessors return its components; so
what the four packing functions are given is read back. -/
theorem message_grammar {o : Object} (ho : o.Packable) (id : Msgid) {method : Bytes}
    (hmethod : method.length < 2 ^ 32) {params : List Object}
    (hparams : (Object.array params).Packable) {result : Object} (hresult : result.Packable)
    {error : Object} (herror : error.Packable) (hne : error ≠ .nil) :
    ((∃ msg, Message.ofData (pack o) = .ok msg) ↔ ∃ c, Content.Denoted o c) ∧
      (∀ msg c, Message.ofData (pack o) = .ok msg → Content.Denoted o c → c.ReadBy msg) ∧
      (∃ msg, Message.ofData (packRequest id method params) = .ok msg ∧
        (Content.request id method params).ReadBy msg) ∧
      (∃ msg, Message.ofData (packResponse id result) = .ok msg ∧
        (Content.response id .nil result).ReadBy msg ∧ msg.hasError = .ok false) ∧
      (∃ msg, Message.ofData (packErrorResponse id error) = .ok msg ∧
        (Content.response id error .nil).ReadBy msg ∧ msg.hasError = .ok true) ∧
      (∃ msg, Message.ofData (packNotification method params) = .ok msg ∧
        (Content.notification method params).ReadBy msg) := by
  have hstr := packable_str hmethod
  have hid := packable_msgidObject id
  have htype := packable_toObject
  refine ⟨Message.accepted_iff ho, fun msg c hmsg h => h.readBy ho hmsg, ?_, ?_, ?_, ?_⟩
  · refine (Content.Denoted.request id (.inl rfl) params).exists_ofData ?_
    simpa [Object.packable_array] using
      ⟨htype .request, hid, hstr, Object.packable_array.mp hparams⟩
  · obtain ⟨msg, hmsg, hread⟩ := (Content.Denoted.response id .nil result).exists_ofData (by
      simpa [Object.packable_array] using ⟨htype .response, hid, Object.packable_nil, hresult⟩)
    exact ⟨msg, hmsg, hread, hread.hasError.1 rfl⟩
  · obtain ⟨msg, hmsg, hread⟩ := (Content.Denoted.response id error .nil).exists_ofData (by
      simpa [Object.packable_array] using ⟨htype .response, hid, herror, Object.packable_nil⟩)
    exact ⟨msg, hmsg, hread, hread.hasError.2 hne⟩
  · refine (Content.Denoted.notification (.inl rfl) params).exists_ofData ?_
    simpa [Object.packable_array] using
      ⟨htype .notification, hstr, Object.packable_array.mp hparams⟩

/-- A notification with its method name written as binary data. -/
def binaryNotification : Object := .array [.positiveInteger 2, .bin (ascii "log"), .array []]

theorem message_grammar_binaryNotification :
    binaryNotification.Packable ∧
      (∃ msg, Message.ofData (pack binaryNotification) = .ok msg) ∧
      (∃ msg, Message.ofData (packErrorResponse 7 (.str (ascii "no"))) = .ok msg ∧
        (Content.response 7 (.str (ascii "no")) .nil).ReadBy msg ∧ msg.hasError = .ok true) := by
  have hno : Object.str (ascii "no") ≠ .nil := by
    intro heq
    cases heq
  have hpackable : binaryNotification.Packable := by decide
  have hmethod : (ascii "echo").length < 2 ^ 32 := by decide
  have hparams : (Object.array [.nil]).Packable := by decide
  have herror : (Object.str (ascii "no")).Packable := by decide
  have h := message_grammar hpackable 7 hmethod hparams Object.packable_nil herror hno
  exact ⟨hpackable, h.1.mpr ⟨_, .notification (.inr rfl) []⟩, h.2.2.2.2.1⟩

end MpRpc
