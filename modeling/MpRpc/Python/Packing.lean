import Mathlib
import MpRpc.Python.Message

/-!
# Packing — the msgpack package of Python

`packb` and `unpackb` are not part of the repository. What the Python sources
rely on is that an object that was packed is unpacked to itself. Either may
raise: a `str` with a lone surrogate is not packed, and bytes that are no UTF-8
are not read as a `str`. The format of `msgpack-c`, for the objects that both
take, is such a package.
-/

namespace MpRpc.Python

open Msgpack

/-- `msgpack.packb` and `msgpack.unpackb`; an exception is `none`. -/
structure MsgpackPackage where
  packb : PyObject → Option Bytes
  unpackb : Bytes → Option PyObject
  /-- what was packed is unpacked to itself -/
  unpackb_packb : ∀ o data, packb o = some data → unpackb data = some o

/-! ## The objects that are packed and read -/

/-- A byte behind the first one of a character. -/
def isContinuation (b : UInt8) : Bool := 0x80 ≤ b && b < 0xC0

/-- `bytes.decode('utf-8')` does not raise: every character has its shortest form,
and none is a surrogate. -/
def isUtf8 : Bytes → Bool
  | [] => true
  | a :: s =>
      if a < 0x80 then isUtf8 s
      else
        match s with
        | [] => false
        | b :: s =>
            if 0xC2 ≤ a && a < 0xE0 then isContinuation b && isUtf8 s
            else
              match s with
              | [] => false
              | c :: s =>
                  if 0xE0 ≤ a && a < 0xF0 then
                    isContinuation b && (a != 0xE0 || 0xA0 ≤ b) && (a != 0xED || b < 0xA0) &&
                      isContinuation c && isUtf8 s
                  else
                    match s with
                    | [] => false
                    | d :: s =>
                        0xF0 ≤ a && a < 0xF5 && isContinuation b && (a != 0xF0 || 0x90 ≤ b) &&
                          (a != 0xF4 || b < 0x90) && isContinuation c && isContinuation d &&
                          isUtf8 s

/-- A key that `unpackb` takes. -/
def PyObject.isKey : PyObject → Bool
  | .str _ | .bytes _ => true
  | _ => false

mutual
/-- An object that is packed and read back: integers of 64 bits, sizes of 32 bits,
text in UTF-8, and different keys that are text or bytes. -/
def PyObject.fits : PyObject → Bool
  | .int n => -(2 ^ 63) ≤ n && n < 2 ^ 64
  | .str s => s.length < 2 ^ 32 && isUtf8 s
  | .bytes s => s.length < 2 ^ 32
  | .ext _ s => s.length < 2 ^ 32
  | .list xs => xs.length < 2 ^ 32 && listFits xs
  | .dict kvs => kvs.length < 2 ^ 32 && pairsFit kvs
  | .none | .bool _ | .float _ => true

def listFits : List PyObject → Bool
  | [] => true
  | x :: xs => x.fits && listFits xs

def pairsFit : List (PyObject × PyObject) → Bool
  | [] => true
  | (k, v) :: kvs =>
      k.isKey && k.fits && v.fits && !kvs.any (fun p => k.sameKey p.1) && pairsFit kvs
end

/-! ## The format of msgpack-c -/

def intObject (n : Int) : Object :=
  if 0 ≤ n then .positiveInteger (UInt64.ofNat n.toNat)
  else .negativeInteger ⟨(-1 - n).toNat % 2 ^ 63, Nat.mod_lt _ (Nat.two_pow_pos 63)⟩

mutual
/-- A Python object as msgpack has it. -/
def PyObject.toObject : PyObject → Object
  | .none => .nil
  | .bool b => .boolean b
  | .int n => intObject n
  | .float bits => .scalar (.float64 bits)
  | .str s => .str s
  | .bytes s => .bin s
  | .ext type data => .scalar (.ext type data)
  | .list xs => .array (toObjects xs)
  | .dict kvs => .map (toPairs kvs)

def toObjects : List PyObject → List Object
  | [] => []
  | x :: xs => x.toObject :: toObjects xs

def toPairs : List (PyObject × PyObject) → List (Object × Object)
  | [] => []
  | (k, v) :: kvs => (k.toObject, v.toObject) :: toPairs kvs
end

theorem length_toObjects (xs : List PyObject) : (toObjects xs).length = xs.length := by
  induction xs with
  | nil => rfl
  | cons x xs ih => simp [toObjects, ih]

theorem length_toPairs (kvs : List (PyObject × PyObject)) :
    (toPairs kvs).length = kvs.length := by
  induction kvs with
  | nil => rfl
  | cons p kvs ih => simp [toPairs, ih]

theorem ofObject_intObject {n : Int} (h : -(2 ^ 63) ≤ n ∧ n < 2 ^ 64) :
    ofObject (intObject n) = .int n := by
  unfold intObject
  by_cases hn : 0 ≤ n
  · have hlt : n.toNat < 2 ^ 64 := by omega
    rw [if_pos hn]
    simp only [ofObject, ofScalar, UInt64.toNat_ofNat_of_lt' hlt, Int.toNat_of_nonneg hn]
  · have hlt : (-1 - n).toNat < 2 ^ 63 := by omega
    rw [if_neg hn]
    simp only [ofObject, ofScalar, Nat.mod_eq_of_lt hlt]
    congr 1
    omega

mutual
theorem PyObject.ofObject_toObject : ∀ o : PyObject, o.fits = true → ofObject o.toObject = o
  | .none, _ | .bool _, _ | .float _, _ | .str _, _ | .bytes _, _
  | .ext _ _, _ => rfl
  | .int n, h => by
      simp only [PyObject.fits, Bool.and_eq_true, decide_eq_true_eq] at h
      exact ofObject_intObject h
  | .list xs, h => by
      simp only [PyObject.fits, Bool.and_eq_true] at h
      simp only [PyObject.toObject, ofObject, ofObjects_toObjects xs h.2]
  | .dict kvs, h => by
      simp only [PyObject.fits, Bool.and_eq_true] at h
      simp only [PyObject.toObject, ofObject, ofPairs_toPairs kvs h.2]

theorem ofObjects_toObjects : ∀ xs : List PyObject, listFits xs = true →
    ofObjects (toObjects xs) = xs
  | [], _ => rfl
  | x :: xs, h => by
      simp only [listFits, Bool.and_eq_true] at h
      simp only [toObjects, ofObjects, PyObject.ofObject_toObject x h.1, ofObjects_toObjects xs h.2]

theorem ofPairs_toPairs : ∀ kvs : List (PyObject × PyObject), pairsFit kvs = true →
    ofPairs (toPairs kvs) = kvs
  | [], _ => rfl
  | (k, v) :: kvs, h => by
      simp only [pairsFit, Bool.and_eq_true] at h
      obtain ⟨⟨⟨⟨-, hk⟩, hv⟩, hnew⟩, hkvs⟩ := h
      have hfind : kvs.find? (fun p => k.sameKey p.1) = none := by simpa using hnew
      simp only [toPairs, ofPairs, PyObject.ofObject_toObject k hk, PyObject.ofObject_toObject v hv,
        ofPairs_toPairs kvs hkvs, dictCons, hfind]
end

mutual
theorem PyObject.sized_toObject : ∀ o : PyObject, o.fits = true →
    ∀ t ∈ o.toObject.tokens, t.Sized
  | .none, _ | .bool _, _ | .float _, _ => by
      simp [PyObject.toObject, Object.tokens, Token.Sized]
  | .int n, _ => by
      simp only [PyObject.toObject, intObject]
      split <;> simp [Object.tokens, Token.Sized]
  | .str s, h => by
      simp only [PyObject.fits, Bool.and_eq_true, decide_eq_true_eq] at h
      simpa [PyObject.toObject, Object.tokens, Token.Sized] using h.1
  | .bytes _, h | .ext _ _, h => by
      simpa [PyObject.toObject, Object.tokens, Token.Sized, PyObject.fits] using h
  | .list xs, h => by
      simp only [PyObject.fits, Bool.and_eq_true, decide_eq_true_eq] at h
      simp only [PyObject.toObject, Object.tokens, List.forall_mem_cons]
      exact ⟨by simpa [Token.Sized, length_toObjects] using h.1, sized_toObjects xs h.2⟩
  | .dict kvs, h => by
      simp only [PyObject.fits, Bool.and_eq_true, decide_eq_true_eq] at h
      simp only [PyObject.toObject, Object.tokens, List.forall_mem_cons]
      exact ⟨by simpa [Token.Sized, length_toPairs] using h.1, sized_toPairs kvs h.2⟩

theorem sized_toObjects : ∀ xs : List PyObject, listFits xs = true →
    ∀ t ∈ listTokens (toObjects xs), t.Sized
  | [], _ => by simp [toObjects, listTokens]
  | x :: xs, h => by
      simp only [listFits, Bool.and_eq_true] at h
      simp only [toObjects, listTokens, List.forall_mem_append]
      exact ⟨PyObject.sized_toObject x h.1, sized_toObjects xs h.2⟩

theorem sized_toPairs : ∀ kvs : List (PyObject × PyObject), pairsFit kvs = true →
    ∀ t ∈ pairTokens (toPairs kvs), t.Sized
  | [], _ => by simp [toPairs, pairTokens]
  | (k, v) :: kvs, h => by
      simp only [pairsFit, Bool.and_eq_true] at h
      simp only [toPairs, pairTokens, List.forall_mem_append]
      obtain ⟨⟨⟨⟨-, hk⟩, hv⟩, -⟩, hkvs⟩ := h
      exact ⟨PyObject.sized_toObject k hk, PyObject.sized_toObject v hv, sized_toPairs kvs hkvs⟩
end

/-- **The format of msgpack-c** loses no object that fits. -/
def msgpackC : MsgpackPackage where
  packb o := if o.fits then some (pack o.toObject) else none
  unpackb data :=
    match unpack data with
    | .ok o => if (ofObject o).fits then some (ofObject o) else none
    | .error _ => none
  unpackb_packb o data h := by
    cases hfits : o.fits with
    | false => simp [hfits] at h
    | true =>
      simp only [hfits, if_true, Option.some.injEq] at h
      have hunpack : unpack data = .ok o.toObject := by
        rw [← h]
        simpa using unpack_pack (o.sized_toObject hfits) []
      rw [hunpack]
      simp only [o.ofObject_toObject hfits, hfits, if_true]

/-! ## The format on both sides -/

/-- The package writes and reads the format of msgpack-c: the same bytes for the same
object, where it does not raise. -/
structure MsgpackPackage.Conforms (msgpack : MsgpackPackage) : Prop where
  unpackb_pack : ∀ o v, o.Packable → msgpack.unpackb (pack o) = some v → v = ofObject o
  packb_eq : ∀ o data, msgpack.packb o = some data →
    o.toObject.Packable ∧ data = pack o.toObject

theorem conforms_msgpackC : msgpackC.Conforms where
  unpackb_pack o v h hv := by
    have hunpack : unpack (pack o) = .ok o := by simpa using unpack_pack h []
    simp only [msgpackC, hunpack, Option.ite_none_right_eq_some, Option.some.injEq] at hv
    exact hv.2.symm
  packb_eq o data h := by
    simp only [msgpackC, Option.ite_none_right_eq_some, Option.some.injEq] at h
    exact ⟨o.sized_toObject h.1, h.2.symm⟩

end MpRpc.Python
