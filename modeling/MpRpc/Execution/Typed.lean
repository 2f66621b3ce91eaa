import Mathlib
import MpRpc.Execution
import MpRpc.Msgpack.Adaptor
import MpRpc.TypedResponseFuture

/-!
# Typed — typed methods and their callers

`function_method_executor<R(P...)>` on the server and `method_client<R(P...)>` on the
client have the same signature. Between the call and the function lie the packing of the
arguments, the message, the tuple adaptor, and the same way back for the result; what the
caller gets in the end is what the function gave.
-/

namespace MpRpc

open Msgpack

/-! ## Arguments -/

/-- A value with its type: what the methods of a server take. -/
abbrev AnyValue := Σ t : CppType, t.Value

/-- A parameter of this type. -/
def Msgpack.CppType.param (t : CppType) : Param AnyValue where
  convert o := (t.convert o).map (Sigma.mk t)
  default := ⟨t, t.default⟩

/-- The value as one of type `t`. -/
def AnyValue.get (v : AnyValue) (t : CppType) : t.Value :=
  if h : v.1 = t then h ▸ v.2 else t.default

/-- The arguments of a function with these parameter types. -/
def Args : List CppType → Type
  | [] => Unit
  | t :: ts => t.Value × Args ts

namespace Args

instance decidableEq : (ts : List CppType) → DecidableEq (Args ts)
  | [] => inferInstanceAs (DecidableEq Unit)
  | t :: ts =>
      have := decidableEq ts
      inferInstanceAs (DecidableEq (t.Value × Args ts))

/-- The elements of the tuple of parameters, as they are packed. -/
def pack : (ts : List CppType) → Args ts → List Object
  | [], _ => []
  | t :: ts, args => t.pack args.1 :: pack ts args.2

/-- The elements of the tuple of parameters. -/
def values : (ts : List CppType) → Args ts → List AnyValue
  | [], _ => []
  | t :: ts, args => ⟨t, args.1⟩ :: values ts args.2

/-- `std::get<Indices>(params)...`. -/
def ofValues : (ts : List CppType) → List AnyValue → Args ts
  | [], _ => ()
  | t :: ts, [] => (t.default, ofValues ts [])
  | t :: ts, v :: vs => (v.get t, ofValues ts vs)

theorem ofValues_values (ts : List CppType) (args : Args ts) :
    ofValues ts (values ts args) = args := by
  induction ts with
  | nil => rfl
  | cons t ts ih =>
    obtain ⟨v, vs⟩ := args
    have hget : AnyValue.get ⟨t, v⟩ t = v := by simp [AnyValue.get]
    exact Prod.ext hget (ih vs)

/-- **The tuple of parameters is read back.** -/
theorem convertParams_pack (ts : List CppType) (args : Args ts) :
    convertParams (ts.map CppType.param) (pack ts args) = some (values ts args) := by
  induction ts with
  | nil => rfl
  | cons t ts ih =>
    obtain ⟨v, vs⟩ := args
    have hconvert : t.param.convert (t.pack v) = some ⟨t, v⟩ := by
      simp [CppType.param, CppType.convert_pack]
    simp only [List.map_cons, pack, values, convertParams, hconvert, ih vs, Option.map_some]

end Args

/-! ## Results -/

/-- The result type of a function. -/
inductive ResultType where
  | void
  | value (type : CppType)
deriving DecidableEq, Repr

namespace ResultType

def Value : ResultType → Type
  | .void => Unit
  | .value type => type.Value

instance decidableEqValue : (t : ResultType) → DecidableEq t.Value
  | .void => inferInstanceAs (DecidableEq Unit)
  | .value type => inferInstanceAs (DecidableEq type.Value)

/-- What `pack_response` is given as the result. -/
def pack : (t : ResultType) → t.Value → Object
  | .void, _ => .nil
  | .value type, v => type.pack v

/-- The calls that follow the completion of a `typed_response_future` of this type. -/
def onCompletion : (t : ResultType) → (TypedCall t.Value → Option ErrorInfo) → ErrorInfo →
    Message → List (TypedCall t.Value)
  | .void, throws => TypedResponseFuture.onCompletionVoid throws
  | .value type, throws => TypedResponseFuture.onCompletion type.convert throws

/-- Every completion is reported. -/
theorem onCompletion_ne_nil (t : ResultType) (error : ErrorInfo) (msg : Message) :
    t.onCompletion (fun _ => none) error msg ≠ [] := by
  have hvoid : TypedResponseFuture.onCompletionVoid (fun _ => none) error msg ≠ [] := by
    unfold TypedResponseFuture.onCompletionVoid
    split
    · unfold TypedResponseFuture.onMessageVoid
      split <;> simp [TypedResponseFuture.attempt]
    · simp
  have hvalue : ∀ type : CppType,
      TypedResponseFuture.onCompletion type.convert (fun _ => none) error msg ≠ [] := by
    intro type
    unfold TypedResponseFuture.onCompletion
    split
    · unfold TypedResponseFuture.onMessage
      split
      · simp
      · simp [TypedResponseFuture.attempt]
      · split <;> simp [TypedResponseFuture.attempt]
    · simp
  cases t with
  | void => exact hvoid
  | value type => exact hvalue type

end ResultType

/-! ## Methods -/

/-- The text of a `std::exception` that fits into a response. -/
abbrev What := { s : Bytes // s.length < 2 ^ 32 }

theorem length_overflowText : (ascii "container size overflow").length < 2 ^ 32 := by decide

/-- The text of `msgpack::container_size_overflow`. -/
def overflowText : What := ⟨ascii "container size overflow", length_overflowText⟩

/-- The name and the types that both sides of a call agree on: `method_client<R(P...)>`. -/
structure Signature where
  name : Bytes
  params : List CppType
  result : ResultType
deriving DecidableEq, Repr

/-- The call of `on_failure` for a function that threw. -/
def failedOnServer (what : What) : ErrorInfo :=
  .of .unexpectedError "error on server" (some (Msgpack.pack (.str what.1)))

/-- What the caller is to be told of an execution. A result that is too large to be packed
is reported by the exception of the packer. -/
def Signature.told (sig : Signature) :
    Except What sig.result.Value → Except ErrorInfo sig.result.Value
  | .error what => .error (failedOnServer what)
  | .ok v => if (sig.result.pack v).Packable then .ok v else .error (failedOnServer overflowText)

/-- A function that is registered as a method; it returns or throws a `std::exception`. -/
structure TypedMethod (W : Type*) extends Signature where
  function : W → Args params → Except What result.Value

namespace TypedMethod

variable {W : Type*}

/-- `pack_response` of the result is inside the `try` block. -/
def outcome (m : TypedMethod W) : Except What m.result.Value → Outcome
  | .error what => .threw what
  | .ok v =>
      if h : (m.result.pack v).Packable then .returned ⟨m.result.pack v, h⟩
      else .threw overflowText

/-- `function_method_executor<R(P...)>`. -/
def executor (m : TypedMethod W) : MethodExecutor AnyValue W where
  name := m.name
  params := m.params.map CppType.param
  function w args := m.outcome (m.function w (Args.ofValues m.params args))

/-- The call of the function for a request with these arguments. -/
def invocation (m : TypedMethod W) (w : W) (args : Args m.params) : Invocation AnyValue :=
  ⟨m.name, Args.values m.params args, m.outcome (m.function w args)⟩

/-- **The function is called on the arguments that were packed.** -/
theorem invoke_request (m : TypedMethod W) (w : W) (id : Msgid) (args : Args m.params) :
    m.executor.invoke w (Message.request id m.name (Args.pack m.params args)) =
      some (m.invocation w args) := by
  have hargs : m.executor.paramsAs (Message.request id m.name (Args.pack m.params args)) =
      some (Args.values m.params args) := Args.convertParams_pack m.params args
  rw [MethodExecutor.invoke, hargs, Option.map_some, invocation]
  simp only [executor, Args.ofValues_values]

/-! ## What the caller is told -/

theorem onCompletion_converted {R : Type*} {as : Object → Option R} {result : Object} {v : R}
    (id : Msgid) (h : as result = some v) :
    TypedResponseFuture.onCompletion as (fun _ => none) {} (Message.response id .nil result) =
      [.onSuccess v] := by
  simp [TypedResponseFuture.onCompletion, thenHandler, TypedResponseFuture.onMessage,
    Message.hasError, Message.response, Message.resultAs, h, TypedResponseFuture.attempt,
    Object.nil]

/-- A response without an error. -/
theorem onCompletion_returned (t : ResultType) (id : Msgid) (v : t.Value) :
    t.onCompletion (fun _ => none) {} (Message.response id .nil (t.pack v)) = [.onSuccess v] := by
  cases t with
  | void => rfl
  | value type => exact onCompletion_converted id (type.convert_pack v)

/-- A response with an error. -/
theorem onCompletion_threw (t : ResultType) (id : Msgid) (what : What) :
    t.onCompletion (fun _ => none) {} (Message.response id (.str what.1) .nil) =
      [.onFailure (failedOnServer what)] := by
  cases t with
  | void => rfl
  | value type => rfl

/-- The call of the handler that has this to report. -/
def reportOf {R : Type*} : Except ErrorInfo R → TypedCall R
  | .ok v => .onSuccess v
  | .error info => .onFailure info

/-- **The caller is told of the execution**, as it was. -/
theorem onCompletion_answer (m : TypedMethod W) (w : W) (id : Msgid) (args : Args m.params) :
    m.result.onCompletion (fun _ => none) {} (Message.response id
        (MethodExecutor.answer (some (m.invocation w args))).1
        (MethodExecutor.answer (some (m.invocation w args))).2) =
      [reportOf (m.told (m.function w args))] := by
  cases hf : m.function w args with
  | error what =>
    simpa [invocation, MethodExecutor.answer, outcome, Signature.told, hf, reportOf] using
      onCompletion_threw m.result id what
  | ok v =>
    by_cases hpackable : (m.result.pack v).Packable
    · simpa [invocation, MethodExecutor.answer, outcome, Signature.told, hf, hpackable,
        reportOf] using
        onCompletion_returned m.result id v
    · simpa [invocation, MethodExecutor.answer, outcome, Signature.told, hf, hpackable,
        reportOf] using
        onCompletion_threw m.result id overflowText

/-- `std::string describe(std::vector<std::int8_t>, std::pair<bool, std::string>)`. -/
def describe : TypedMethod Unit where
  name := ascii "describe"
  params := [.vector (.integer ⟨true, .w8⟩), .pair .bool .string]
  result := .value .string
  function _ args := cond args.2.1.1 (.ok args.2.1.2) (.error overflowText)

/-- Its arguments, with the least and the greatest element. -/
def describeArgs : Args describe.params :=
  ([⟨-128, by decide⟩, ⟨127, by decide⟩], (true, ascii "both"), ())

end TypedMethod

end MpRpc
