import Mathlib

/-!
# Object — msgpack objects and their tokens

The value tree of the msgpack format and the flat token sequence that the
packer writes and the parser reads. Integers keep the sign split of
`msgpack::object` (`POSITIVE_INTEGER` and `NEGATIVE_INTEGER`), and floating
point numbers are kept as their bit patterns.
-/

namespace MpRpc

/-- Raw bytes: the contents of a `std::string`, of a message and of the wire. -/
abbrev Bytes := List UInt8

namespace Msgpack

/-- A value without parts. `negativeInteger k` is the integer `-1 - k`, so a
nonnegative number cannot hide under that constructor. -/
inductive Scalar where
  | nil
  | boolean (b : Bool)
  | positiveInteger (u64 : UInt64)
  | negativeInteger (k : Fin (2 ^ 63))
  | float32 (bits : UInt32)
  | float64 (bits : UInt64)
  | str (ptr : Bytes)
  | bin (ptr : Bytes)
  | ext (type : UInt8) (ptr : Bytes)
deriving DecidableEq, Repr

/-- The `msgpack::object` tree. -/
inductive Object where
  | scalar (s : Scalar)
  | array (ptr : List Object)
  | map (ptr : List (Object × Object))
deriving Repr

namespace Object

abbrev nil : Object := .scalar .nil
abbrev boolean (b : Bool) : Object := .scalar (.boolean b)
abbrev positiveInteger (n : UInt64) : Object := .scalar (.positiveInteger n)
abbrev negativeInteger (k : Fin (2 ^ 63)) : Object := .scalar (.negativeInteger k)
abbrev str (s : Bytes) : Object := .scalar (.str s)
abbrev bin (s : Bytes) : Object := .scalar (.bin s)

instance : Inhabited Object := ⟨.nil⟩

end Object

/-- What one header of the format announces: a scalar with its payload, or a
container with the number of its elements (of its pairs, for a map). -/
inductive Token where
  | scalar (s : Scalar)
  | array (n : Nat)
  | map (n : Nat)
deriving DecidableEq, Repr

mutual
/-- The tokens of an object in document order. -/
def Object.tokens : Object → List Token
  | .scalar s => [.scalar s]
  | .array xs => .array xs.length :: listTokens xs
  | .map kvs => .map kvs.length :: pairTokens kvs

def listTokens : List Object → List Token
  | [] => []
  | x :: xs => x.tokens ++ listTokens xs

def pairTokens : List (Object × Object) → List Token
  | [] => []
  | (k, v) :: kvs => k.tokens ++ (v.tokens ++ pairTokens kvs)
end

/-- Sizes fit the 32 bits that every size field of the format has. -/
def Token.Sized : Token → Prop
  | .scalar (.str s) => s.length < 2 ^ 32
  | .scalar (.bin s) => s.length < 2 ^ 32
  | .scalar (.ext _ s) => s.length < 2 ^ 32
  | .scalar _ => True
  | .array n => n < 2 ^ 32
  | .map n => n < 2 ^ 32

instance : DecidablePred Token.Sized
  | .scalar (.str s) => inferInstanceAs (Decidable (s.length < 2 ^ 32))
  | .scalar (.bin s) => inferInstanceAs (Decidable (s.length < 2 ^ 32))
  | .scalar (.ext _ s) => inferInstanceAs (Decidable (s.length < 2 ^ 32))
  | .scalar .nil | .scalar (.boolean _) | .scalar (.positiveInteger _)
  | .scalar (.negativeInteger _) | .scalar (.float32 _) | .scalar (.float64 _) =>
      inferInstanceAs (Decidable True)
  | .array n => inferInstanceAs (Decidable (n < 2 ^ 32))
  | .map n => inferInstanceAs (Decidable (n < 2 ^ 32))

/-- `o` has a msgpack form: packing it never meets a size overflow. -/
def Object.Packable (o : Object) : Prop := ∀ t ∈ o.tokens, t.Sized

instance (o : Object) : Decidable o.Packable :=
  inferInstanceAs (Decidable (∀ t ∈ o.tokens, t.Sized))

theorem mem_listTokens {t : Token} {xs : List Object} :
    t ∈ listTokens xs ↔ ∃ x ∈ xs, t ∈ x.tokens := by
  induction xs with
  | nil => simp [listTokens]
  | cons x xs ih => simp [listTokens, ih]

theorem Object.packable_nil : Object.nil.Packable := by decide

theorem Object.packable_array {xs : List Object} :
    (Object.array xs).Packable ↔ xs.length < 2 ^ 32 ∧ ∀ x ∈ xs, x.Packable := by
  simp only [Packable, tokens, List.forall_mem_cons, mem_listTokens, forall_exists_index, and_imp]
  refine and_congr Iff.rfl ⟨fun h x hx t ht => h t x hx ht, fun h t x hx ht => h x hx t ht⟩

end Msgpack

end MpRpc
