import Mathlib
import MpRpc.Message

/-!
# Adaptor — C++ values as msgpack objects

The parameter and result types that msgpack-c converts by `adaptor::convert`, as a small
universe of types: `bool`, the standard integer types, `std::string`, `std::pair` and
`std::vector` of such types. `pack` is the object that the packer writes for a value;
`convert` is the conversion back, which throws `type_error` (`none`) on an object that is
no value of the type. A value that is packed is read back as it was, whatever its type.
-/

namespace MpRpc.Msgpack

/-! ## Integers -/

/-- The width of a standard integer type. -/
inductive Width where
  | w8
  | w16
  | w32
  | w64
deriving DecidableEq, Repr

def Width.bits : Width → Nat
  | .w8 => 8
  | .w16 => 16
  | .w32 => 32
  | .w64 => 64

/-- A standard integer type, with its `std::numeric_limits`. -/
structure IntType where
  isSigned : Bool
  width : Width
deriving DecidableEq, Repr

namespace IntType

def min (t : IntType) : Int := if t.isSigned then -2 ^ (t.width.bits - 1) else 0

def max (t : IntType) : Int :=
  if t.isSigned then 2 ^ (t.width.bits - 1) - 1 else 2 ^ t.width.bits - 1

abbrev Value (t : IntType) : Type := { z : Int // t.min ≤ z ∧ z ≤ t.max }

/-- Every type has zero, and lies between the limits of `int64_t` and `uint64_t`. -/
theorem limits (t : IntType) : -2 ^ 63 ≤ t.min ∧ t.min ≤ 0 ∧ 0 ≤ t.max ∧ t.max < 2 ^ 64 := by
  obtain ⟨isSigned, width⟩ := t
  cases isSigned <;> cases width <;> decide

theorem zero_mem (t : IntType) : t.min ≤ 0 ∧ 0 ≤ t.max := ⟨t.limits.2.1, t.limits.2.2.1⟩

theorem ofNat_mem (t : IntType) {n : Nat} (h : (n : Int) ≤ t.max) :
    t.min ≤ (n : Int) ∧ (n : Int) ≤ t.max :=
  ⟨t.limits.2.1.trans (Int.natCast_nonneg n), h⟩

theorem neg_mem (t : IntType) {k : Nat} (h : t.min ≤ -1 - (k : Int)) :
    t.min ≤ -1 - (k : Int) ∧ -1 - (k : Int) ≤ t.max := by
  have hmax := t.limits.2.2.1
  exact ⟨h, by omega⟩

theorem magnitude_lt (z : Int) : (-1 - z).toNat % 2 ^ 63 < 2 ^ 63 :=
  Nat.mod_lt _ (Nat.two_pow_pos 63)

/-- The object of an integer: `pack_imp_int64` and `pack_imp_uint64`. -/
def pack (z : Int) : Object :=
  if z < 0 then .negativeInteger ⟨(-1 - z).toNat % 2 ^ 63, magnitude_lt z⟩
  else .positiveInteger (UInt64.ofNat z.toNat)

/-- `convert_integer`. An unsigned type has no value below zero. -/
def convert (t : IntType) : Object → Option t.Value
  | .scalar (.positiveInteger u64) =>
      if h : (u64.toNat : Int) ≤ t.max then some ⟨u64.toNat, t.ofNat_mem h⟩ else none
  | .scalar (.negativeInteger k) =>
      if h : t.min ≤ -1 - (k.val : Int) then some ⟨-1 - k.val, t.neg_mem h⟩ else none
  | _ => none

/-- **Integers are read back**: what a type holds, it gets back. -/
theorem convert_pack (t : IntType) (z : t.Value) : t.convert (pack z.1) = some z := by
  obtain ⟨z, hmin, hmax⟩ := z
  obtain ⟨hlow, -, -, hhigh⟩ := t.limits
  by_cases hneg : z < 0
  · have hk : (-1 - z).toNat % 2 ^ 63 = (-1 - z).toNat := Nat.mod_eq_of_lt (by omega)
    have hz : -1 - (((-1 - z).toNat : Nat) : Int) = z := by omega
    simp only [pack, if_pos hneg, convert, hk, hz, dif_pos hmin]
  · have hz : ((UInt64.ofNat z.toNat).toNat : Int) = z := by
      rw [UInt64.toNat_ofNat_of_lt' (by rw [UInt64.size]; omega)]
      omega
    simp only [pack, if_neg hneg, convert, hz, dif_pos hmax]

end IntType

/-! ## Types -/

/-- `as<bool>()`. -/
def asBool : Object → Option Bool
  | .scalar (.boolean b) => some b
  | _ => none

section Containers

variable {α β : Type}

/-- `convert<std::pair<T1, T2>>`. -/
def asPair (first : Object → Option α) (second : Object → Option β) : Object → Option (α × β)
  | .array [a, b] => (first a).bind fun x => (second b).map fun y => (x, y)
  | _ => none

/-- `convert<std::vector<T>>`. -/
def asVector (element : Object → Option α) : Object → Option (List α)
  | .array os => os.mapM element
  | _ => none

theorem asPair_of_inverse {first : Object → Option α} {second : Object → Option β} {a b : Object}
    {x : α} {y : β} (hx : first a = some x) (hy : second b = some y) :
    asPair first second (.array [a, b]) = some (x, y) := by
  simp [asPair, hx, hy]

theorem mapM_map_of_inverse {pack : α → Object} {convert : Object → Option α}
    (h : ∀ v, convert (pack v) = some v) (vs : List α) : (vs.map pack).mapM convert = some vs := by
  induction vs with
  | nil => rfl
  | cons v vs ih => simp [h v, ih]

end Containers

/-- A type of parameters and results. -/
inductive CppType where
  | bool
  | integer (type : IntType)
  | string
  | pair (first second : CppType)
  | vector (element : CppType)
deriving DecidableEq, Repr

namespace CppType

/-- The values of a type. -/
def Value : CppType → Type
  | .bool => Bool
  | .integer type => type.Value
  | .string => Bytes
  | .pair first second => first.Value × second.Value
  | .vector element => List element.Value

instance decidableEqValue : (t : CppType) → DecidableEq t.Value
  | .bool => inferInstanceAs (DecidableEq Bool)
  | .integer type => inferInstanceAs (DecidableEq type.Value)
  | .string => inferInstanceAs (DecidableEq Bytes)
  | .pair first second =>
      have := decidableEqValue first
      have := decidableEqValue second
      inferInstanceAs (DecidableEq (first.Value × second.Value))
  | .vector element =>
      have := decidableEqValue element
      inferInstanceAs (DecidableEq (List element.Value))

/-- A value-initialized element of a `std::tuple`. -/
def default : (t : CppType) → t.Value
  | .bool => false
  | .integer type => ⟨0, type.zero_mem⟩
  | .string => ([] : Bytes)
  | .pair first second => (first.default, second.default)
  | .vector element => ([] : List element.Value)

/-- `adaptor::pack`. -/
def pack : (t : CppType) → t.Value → Object
  | .bool, b => .boolean b
  | .integer _, z => IntType.pack z.1
  | .string, s => .str s
  | .pair first second, v => .array [first.pack v.1, second.pack v.2]
  | .vector element, v => .array (List.map element.pack v)

/-- `adaptor::convert`. -/
def convert : (t : CppType) → Object → Option t.Value
  | .bool => asBool
  | .integer type => type.convert
  | .string => asString
  | .pair first second => asPair first.convert second.convert
  | .vector element => asVector element.convert

/-- **Values are read back**, whatever their type. -/
theorem convert_pack (t : CppType) (v : t.Value) : t.convert (t.pack v) = some v := by
  induction t with
  | bool => rfl
  | integer type => exact type.convert_pack v
  | string => rfl
  | pair first second ihfirst ihsecond =>
    obtain ⟨x, y⟩ := v
    exact asPair_of_inverse (ihfirst x) (ihsecond y)
  | vector element ih => exact mapM_map_of_inverse ih v

end CppType

end MpRpc.Msgpack
