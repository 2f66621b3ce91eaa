import MpRpc.Python.Message

/-!
# Agreement — two readers of one message format

`message` of the C++ library and `validate_message` of the Python package read
the same objects. Their grammars are compared constructor by constructor; they
differ where Python takes a `bool` for an `int` and where msgpack-c takes a
`bin` for a string.
-/

namespace MpRpc.Python

open Msgpack

/-! ## The fields of a message, read twice -/

theorem ofObject_eq_list {o : Object} {ys : List PyObject} :
    ofObject o = .list ys ↔ ∃ xs, o = .array xs ∧ ofObjects xs = ys := by
  cases o with
  | scalar s => cases s <;> simp [ofObject, ofScalar]
  | array xs => simp [ofObject]
  | map kvs => simp [ofObject]

theorem ofObjects_eq_nil {xs : List Object} : ofObjects xs = [] ↔ xs = [] := by
  cases xs <;> simp [ofObjects]

theorem ofObjects_eq_cons {xs : List Object} {y : PyObject} {ys : List PyObject} :
    ofObjects xs = y :: ys ↔
      ∃ x xs', xs = x :: xs' ∧ ofObject x = y ∧ ofObjects xs' = ys := by
  cases xs with
  | nil => simp [ofObjects]
  | cons x xs' => simp [ofObjects]

theorem ofObject_eq_str {o : Object} {s : Bytes} : ofObject o = .str s ↔ o = .str s := by
  cases o with
  | scalar x => cases x <;> simp [ofObject, ofScalar]
  | array xs => simp [ofObject]
  | map kvs => simp [ofObject]

/-- A message type that is not a `bool` is read the same way. -/
theorem asInt_ofObject {o : Object} (ho : ∀ b, o ≠ .boolean b) {k : Int} (hk : 0 ≤ k ∧ k ≤ 2) :
    (ofObject o).asInt = some k ↔ asInt o = some k := by
  cases o with
  | array xs => simp [ofObject, PyObject.asInt, asInt]
  | map kvs => simp [ofObject, PyObject.asInt, asInt]
  | scalar s =>
    cases s with
    | boolean b => exact absurd rfl (ho b)
    | positiveInteger u =>
      simp only [ofObject, ofScalar, PyObject.asInt, asInt]
      split
      · simp only [Option.some.injEq, reduceCtorEq, iff_false]
        omega
      · exact Iff.rfl
    | negativeInteger n =>
      have hneg : (-1 - n.val : Int) ≠ k := by omega
      simp only [ofObject, ofScalar, PyObject.asInt, asInt]
      split <;> simp [hneg]
    | nil | float32 | float64 | str | bin | ext =>
      simp [ofObject, ofScalar, PyObject.asInt, asInt]

theorem ofObject_of_asMsgid {o : Object} {m : Msgid} (h : asMsgid o = some m) :
    ofObject o = .int m.toNat := by
  cases o with
  | array xs => cases h
  | map kvs => cases h
  | scalar s =>
    cases s with
    | positiveInteger u =>
      simp only [asMsgid] at h
      split at h
      · cases h
      · rename_i hle
        cases h
        have hlt : u.toNat < 2 ^ 32 := by omega
        have hnat : (UInt32.ofNat u.toNat).toNat = u.toNat := UInt32.toNat_ofNat_of_lt' hlt
        simp only [ofObject, ofScalar, hnat]
    | nil | boolean | negativeInteger | float32 | float64 | str | bin | ext => cases h

/-- A msgid that is not a `bool` is read the same way. -/
theorem asMsgid_of_asInt {o : Object} (ho : ∀ b, o ≠ .boolean b) {n : Int}
    (h : (ofObject o).asInt = some n) (hn : 0 ≤ n ∧ n ≤ 2 ^ 32 - 1) :
    ∃ m, asMsgid o = some m := by
  cases o with
  | array xs => cases h
  | map kvs => cases h
  | scalar s =>
    cases s with
    | boolean b => exact absurd rfl (ho b)
    | positiveInteger u =>
      simp only [ofObject, ofScalar, PyObject.asInt, Option.some.injEq] at h
      have hle : ¬ (2 ^ 32 - 1 < u.toNat) := by omega
      exact ⟨_, if_neg hle⟩
    | negativeInteger k =>
      simp only [ofObject, ofScalar, PyObject.asInt, Option.some.injEq] at h
      omega
    | nil | float32 | float64 | str | bin | ext => cases h

theorem asString_of_not_bin {o : Object} (ho : ∀ s, o ≠ .bin s) {s : Bytes}
    (h : asString o = some s) : o = .str s := by
  cases o with
  | array xs => cases h
  | map kvs => cases h
  | scalar x =>
    cases x with
    | str s' => cases h; rfl
    | bin s' => exact absurd rfl (ho s')
    | nil | boolean | positiveInteger | negativeInteger | float32 | float64 | ext => cases h

/-! ## Agreement -/

/-- The two messages are of the same kind and have the same parts. -/
def SameMessage (msg : Message) : PyMessage → Prop
  | .request msgid method params =>
      msg.type = some .request ∧ msgid = .int msg.msgid.toNat ∧ method = msg.method ∧
        msg.params.map ofObject = some (.list params)
  | .response msgid error result =>
      msg.type = some .response ∧ msgid = .int msg.msgid.toNat ∧
        msg.error.map ofObject = some error ∧ msg.result.map ofObject = some result
  | .notification method params =>
      msg.type = some .notification ∧ method = msg.method ∧
        msg.params.map ofObject = some (.list params)

/-- Neither the message type nor the msgid is a boolean, and the method name is
not a `bin`. -/
structure Literal (o : Object) : Prop where
  type : ∀ b rest, o ≠ .array (.boolean b :: rest)
  msgid : ∀ type b x y, o ≠ .array [type, .boolean b, x, y]
  requestMethod : ∀ type msgid s params, asInt type = some 0 →
    o ≠ .array [type, msgid, .bin s, params]
  notificationMethod : ∀ type s params, o ≠ .array [type, .bin s, params]

/-- What C++ accepts, Python accepts. -/
theorem Literal.validates {o : Object} {data : MessageData} {msg : Message} (hl : Literal o)
    (h : Message.Parses data o msg) : ∃ pm, Validates (ofObject o) pm ∧ SameMessage msg pm := by
  have hint : ∀ {id : Object} {msgid : Msgid}, asMsgid id = some msgid →
      (ofObject id).asInt = some (msgid.toNat : Int) ∧
        (0 : Int) ≤ msgid.toNat ∧ (msgid.toNat : Int) ≤ 2 ^ 32 - 1 := by
    intro id msgid hid
    have hlt := msgid.toNat_lt
    rw [ofObject_of_asMsgid hid]
    exact ⟨rfl, by omega, by omega⟩
  cases h with
  | @request type id name params msgid method htype hid hname =>
    have htype' := (asInt_ofObject (fun b hb => hl.type b _ (by rw [hb])) (by decide)).mpr htype
    obtain rfl : name = .str method := asString_of_not_bin
      (fun s hs => hl.requestMethod type id s (.array params) htype (by rw [hs])) hname
    obtain ⟨hid', hn⟩ := hint hid
    exact ⟨_, .request htype' hid' hn, rfl, ofObject_of_asMsgid hid, rfl, rfl⟩
  | @response type id error result msgid htype hid =>
    have htype' := (asInt_ofObject (fun b hb => hl.type b _ (by rw [hb])) (by decide)).mpr htype
    obtain ⟨hid', hn⟩ := hint hid
    exact ⟨_, .response htype' hid' hn, rfl, ofObject_of_asMsgid hid, rfl, rfl⟩
  | @notification type name params method htype hname =>
    have htype' := (asInt_ofObject (fun b hb => hl.type b _ (by rw [hb])) (by decide)).mpr htype
    obtain rfl : name = .str method := asString_of_not_bin
      (fun s hs => hl.notificationMethod type s (.array params) (by rw [hs])) hname
    exact ⟨_, .notification htype', rfl, rfl, rfl⟩

/-- What Python accepts, C++ accepts. -/
theorem Literal.parses {o : Object} {pm : PyMessage} (hl : Literal o)
    (h : Validates (ofObject o) pm) (data : MessageData) : ∃ msg, Message.Parses data o msg := by
  generalize hv : ofObject o = v at h
  cases h with
  | request htype hid hn =>
    simp only [ofObject_eq_list, ofObjects_eq_cons, ofObjects_eq_nil, ofObject_eq_str] at hv
    obtain ⟨_, rfl, type, _, rfl, rfl, id, _, rfl, rfl, name, _, rfl, rfl, p, _, rfl,
      ⟨params, rfl, -⟩, rfl⟩ := hv
    have htype' := (asInt_ofObject (fun b hb => hl.type b _ (by rw [hb])) (by decide)).mp htype
    obtain ⟨msgid, hid'⟩ := asMsgid_of_asInt (fun b hb => hl.msgid _ b _ _ (by rw [hb])) hid hn
    exact ⟨_, .request htype' hid' rfl⟩
  | response htype hid hn =>
    simp only [ofObject_eq_list, ofObjects_eq_cons, ofObjects_eq_nil] at hv
    obtain ⟨_, rfl, type, _, rfl, rfl, id, _, rfl, rfl, error, _, rfl, rfl, result, _, rfl,
      rfl, rfl⟩ := hv
    have htype' := (asInt_ofObject (fun b hb => hl.type b _ (by rw [hb])) (by decide)).mp htype
    obtain ⟨msgid, hid'⟩ := asMsgid_of_asInt (fun b hb => hl.msgid _ b _ _ (by rw [hb])) hid hn
    exact ⟨_, .response htype' hid'⟩
  | notification htype =>
    simp only [ofObject_eq_list, ofObjects_eq_cons, ofObjects_eq_nil, ofObject_eq_str] at hv
    obtain ⟨_, rfl, type, _, rfl, rfl, name, _, rfl, rfl, p, _, rfl, ⟨params, rfl, -⟩, rfl⟩ := hv
    have htype' := (asInt_ofObject (fun b hb => hl.type b _ (by rw [hb])) (by decide)).mp htype
    exact ⟨_, .notification htype' rfl⟩

/-- **The two readers agree** on every object without a boolean for an integer
and without a `bin` for a method name. -/
theorem readers_agree {o : Object} (hp : o.Packable) (hl : Literal o) :
    ((∃ msg, Message.ofData (pack o) = .ok msg) ↔ ∃ pm, validateMessage (ofObject o) = .ok pm) ∧
      ∀ msg pm, Message.ofData (pack o) = .ok msg → validateMessage (ofObject o) = .ok pm →
        SameMessage msg pm := by
  refine ⟨⟨?_, ?_⟩, ?_⟩
  · intro hex
    obtain ⟨msg, hmsg⟩ := hex
    obtain ⟨pm, hpm, -⟩ := hl.validates ((Message.ofData_ok_iff hp).mp hmsg)
    exact ⟨pm, validateMessage_ok_iff.mpr hpm⟩
  · intro hex
    obtain ⟨pm, hpm⟩ := hex
    obtain ⟨msg, hmsg⟩ := hl.parses (validateMessage_ok_iff.mp hpm) (pack o)
    exact ⟨msg, (Message.ofData_ok_iff hp).mpr hmsg⟩
  · intro msg pm hmsg hpm
    obtain ⟨pm', hpm', hsame⟩ := hl.validates ((Message.ofData_ok_iff hp).mp hmsg)
    rw [← validateMessage_ok_iff, hpm, Except.ok.injEq] at hpm'
    rwa [hpm']

/-- `[1, 7, nil, [true]]` -/
def someResponse : Object :=
  .array [.positiveInteger 1, .positiveInteger 7, .nil, .array [.boolean true]]

theorem readers_agree_someResponse :
    ((∃ msg, Message.ofData (pack someResponse) = .ok msg) ↔
        ∃ pm, validateMessage (ofObject someResponse) = .ok pm) ∧
      ∀ msg pm, Message.ofData (pack someResponse) = .ok msg →
        validateMessage (ofObject someResponse) = .ok pm → SameMessage msg pm := by
  refine readers_agree (by decide) ⟨?_, ?_, ?_, ?_⟩
  · simp [someResponse]
  · simp [someResponse]
  · intro type msgid s params htype heq
    simp [someResponse] at heq
  · simp [someResponse]

/-- Python takes `true` for the msgid of `[0, true, "m", []]`, and C++ takes the
`bin` of `[2, bin "m", []]` for a method name. -/
theorem readers_disagree :
    (∃ pm, validateMessage (ofObject (.array [.positiveInteger 0, .boolean true,
        .str (ascii "m"), .array []])) = .ok pm) ∧
      (∀ msg, Message.ofData (pack (.array [.positiveInteger 0, .boolean true,
        .str (ascii "m"), .array []])) ≠ .ok msg) ∧
      (∃ msg, Message.ofData (pack (.array [.positiveInteger 2, .bin (ascii "m"),
        .array []])) = .ok msg) ∧
      ∀ pm, validateMessage (ofObject (.array [.positiveInteger 2, .bin (ascii "m"),
        .array []])) ≠ .ok pm := by
  refine ⟨⟨_, rfl⟩, ?_, ⟨_, rfl⟩, ?_⟩
  · intro msg hmsg
    cases hmsg
  · intro pm hpm
    cases hpm

end MpRpc.Python
