import Mathlib
import MpRpc.ErrorInfo

/-!
# Toml — values of TOML documents

What `toml11` gives the library: a value of one of eleven types, the functions `as_*`
that throw `toml::type_error` when the type is another, and `toml::get<T>`, which for an
integral `T` is a `static_cast` of the 64-bit integer of the document. The texts of the
errors are kept by title and comment; the lines of the file that are printed between
the two are not.
-/

namespace MpRpc.Toml

/-- `toml::value_t` -/
inductive ValueT where
  | empty | boolean | integer | floating | string
  | offsetDatetime | localDatetime | localDate | localTime
  | array | table
deriving DecidableEq, Repr

/-- The texts of `operator<<`. -/
def ValueT.toText : ValueT → String
  | .empty => "empty"
  | .boolean => "boolean"
  | .integer => "integer"
  | .floating => "floating"
  | .string => "string"
  | .offsetDatetime => "offset_datetime"
  | .localDatetime => "local_datetime"
  | .localDate => "local_date"
  | .localTime => "local_time"
  | .array => "array"
  | .table => "table"

/-- `toml::value`. The entries of a table are listed in the order in which the loops
over the `unordered_map` meet them. -/
inductive Value where
  | empty
  | boolean (b : Bool)
  | integer (i : Int64)
  | floating (bits : UInt64)
  | string (s : String)
  | offsetDatetime
  | localDatetime
  | localDate
  | localTime
  | array (elements : List Value)
  | table (entries : List (String × Value))

/-- `type()` -/
def Value.type : Value → ValueT
  | .empty => .empty
  | .boolean _ => .boolean
  | .integer _ => .integer
  | .floating _ => .floating
  | .string _ => .string
  | .offsetDatetime => .offsetDatetime
  | .localDatetime => .localDatetime
  | .localDate => .localDate
  | .localTime => .localTime
  | .array _ => .array
  | .table _ => .table

/-- No table of the value has a key twice: a table is a map. -/
inductive Value.WellFormed : Value → Prop
  | scalar {v : Value} (harray : v.type ≠ .array) (htable : v.type ≠ .table) : v.WellFormed
  | array {elements : List Value} (h : ∀ v ∈ elements, v.WellFormed) :
    (Value.array elements).WellFormed
  | table {entries : List (String × Value)} (nodup : (entries.map Prod.fst).Nodup)
    (h : ∀ entry ∈ entries, entry.2.WellFormed) : (Value.table entries).WellFormed

@[simp] theorem Value.wellFormed_integer (i : Int64) : (Value.integer i).WellFormed :=
  .scalar (by simp [type]) (by simp [type])

@[simp] theorem Value.wellFormed_string (s : String) : (Value.string s).WellFormed :=
  .scalar (by simp [type]) (by simp [type])

@[simp] theorem Value.wellFormed_array_iff {elements : List Value} :
    (Value.array elements).WellFormed ↔ ∀ v ∈ elements, v.WellFormed := by
  refine ⟨fun h => ?_, .array⟩
  cases h with
  | scalar harray => exact absurd rfl harray
  | array h => exact h

@[simp] theorem Value.wellFormed_table_iff {entries : List (String × Value)} :
    (Value.table entries).WellFormed ↔
      (entries.map Prod.fst).Nodup ∧ ∀ entry ∈ entries, entry.2.WellFormed := by
  refine ⟨fun h => ?_, fun h => .table h.1 h.2⟩
  cases h with
  | scalar _ htable => exact absurd rfl htable
  | table nodup h => exact ⟨nodup, h⟩

/-- What `toml::parse` returns: a table. -/
structure Document where
  entries : List (String × Value)
  wellFormed : (Value.table entries).WellFormed

def Document.value (d : Document) : Value := .table d.entries

/-- The exceptions that leave the reading of a configuration, by class. -/
inductive Exception where
  /-- `toml::syntax_error`, of `toml::parse` only -/
  | syntaxError (text : String)
  /-- `toml::type_error` -/
  | typeError (title comment : String)
  /-- `std::runtime_error`, with the text of `toml::format_error` -/
  | runtimeError (title comment : String)
  /-- `mprpc::exception` -/
  | exception (info : ErrorInfo)
deriving DecidableEq, Repr

/-- `throw_bad_cast` -/
def throwBadCast {α : Type} (funcname : String) (expected actual : ValueT) :
    Except Exception α :=
  .error (.typeError (funcname ++ "bad_cast to " ++ expected.toText)
    ("the actual type is " ++ actual.toText))

namespace Value

/-- `as_integer` -/
def asInteger : Value → Except Exception Int64
  | .integer i => .ok i
  | v => throwBadCast "toml::value::as_integer(): " .integer v.type

/-- `as_string` -/
def asString : Value → Except Exception String
  | .string s => .ok s
  | v => throwBadCast "toml::value::as_string(): " .string v.type

/-- `as_array` -/
def asArray : Value → Except Exception (List Value)
  | .array elements => .ok elements
  | v => throwBadCast "toml::value::as_array(): " .array v.type

/-- `as_table` -/
def asTable : Value → Except Exception (List (String × Value))
  | .table entries => .ok entries
  | v => throwBadCast "toml::value::as_table(): " .table v.type

theorem asInteger_eq_ok {v : Value} {i : Int64} : v.asInteger = .ok i ↔ v = .integer i := by
  cases v <;> simp [asInteger, throwBadCast]

theorem asString_eq_ok {v : Value} {s : String} : v.asString = .ok s ↔ v = .string s := by
  cases v <;> simp [asString, throwBadCast]

theorem asArray_eq_ok {v : Value} {elements : List Value} :
    v.asArray = .ok elements ↔ v = .array elements := by
  cases v <;> simp [asArray, throwBadCast]

theorem asTable_eq_ok {v : Value} {entries : List (String × Value)} :
    v.asTable = .ok entries ↔ v = .table entries := by
  cases v <;> simp [asTable, throwBadCast]

end Value

/-! ## `toml::get` -/

/-- `toml::get<T>`; a specialization of `toml::from` is an instance. -/
class Get (α : Type) where
  get : Value → Except Exception α

export Get (get)

/-- An integral type other than `bool`: its values as integers, its limits, and the
`static_cast` from a 64-bit integer, which leaves the integers of its range as they
are. -/
class Integral (α : Type) where
  toInt : α → Int
  minValue : Int
  maxValue : Int
  staticCast : Int64 → α
  toInt_eq_iff (x : α) (i : Int64) :
    toInt x = i.toInt ↔ staticCast i = x ∧ minValue ≤ i.toInt ∧ i.toInt ≤ maxValue

instance {α : Type} [Integral α] : Get α where
  get value := Integral.staticCast <$> value.asInteger

instance : Get String where
  get value := value.asString

/-- `std::vector` -/
instance {α : Type} [Get α] : Get (List α) where
  get value := do
    let ary ← value.asArray
    ary.mapM get

/-- Wrapping around at `2 ^ w` leaves only the integers from `0` to `2 ^ w - 1` as they
are. -/
theorem natCast_eq_iff_wrapped {w n : Nat} (hn : n < 2 ^ w) (i : Int) :
    (n : Int) = i ↔ (i % 2 ^ w).toNat % 2 ^ w = n ∧ 0 ≤ i ∧ i ≤ 2 ^ w - 1 := by
  have hw : (n : Int) < 2 ^ w := by exact_mod_cast hn
  constructor
  · rintro rfl
    rw [Int.emod_eq_of_lt (Int.natCast_nonneg n) hw, Int.toNat_natCast, Nat.mod_eq_of_lt hn]
    omega
  · rintro ⟨hmod, hlo, hhi⟩
    have hlt : i.toNat < 2 ^ w := by
      rw [Int.toNat_lt hlo]
      push_cast
      omega
    rw [Int.emod_eq_of_lt hlo (by omega), Nat.mod_eq_of_lt hlt] at hmod
    omega

/-- `std::uint16_t` -/
instance : Integral UInt16 where
  toInt x := x.toNat
  minValue := 0
  maxValue := 2 ^ 16 - 1
  staticCast i := UInt16.ofInt i.toInt
  toInt_eq_iff x i := by
    rw [natCast_eq_iff_wrapped x.toNat_lt, ← UInt16.toNat_inj, UInt16.ofInt, UInt16.toNat_ofNat']

/-- `std::uint32_t` -/
instance : Integral UInt32 where
  toInt x := x.toNat
  minValue := 0
  maxValue := 2 ^ 32 - 1
  staticCast i := UInt32.ofInt i.toInt
  toInt_eq_iff x i := by
    rw [natCast_eq_iff_wrapped x.toNat_lt, ← UInt32.toNat_inj, UInt32.ofInt, UInt32.toNat_ofNat']

/-- `std::size_t` -/
instance : Integral UInt64 where
  toInt x := x.toNat
  minValue := 0
  maxValue := 2 ^ 64 - 1
  staticCast i := UInt64.ofInt i.toInt
  toInt_eq_iff x i := by
    rw [natCast_eq_iff_wrapped x.toNat_lt, ← UInt64.toNat_inj, UInt64.ofInt, UInt64.toNat_ofNat']

/-- `int` -/
instance : Integral Int32 where
  toInt x := x.toInt
  minValue := -2 ^ 31
  maxValue := 2 ^ 31 - 1
  staticCast i := Int32.ofInt i.toInt
  toInt_eq_iff x i := by
    have hlt := x.toInt_lt
    have hle := x.le_toInt
    rw [← Int32.toInt_inj, Int32.toInt_ofInt]
    simp only [Int32.size, Int.bmod]
    omega

end MpRpc.Toml
