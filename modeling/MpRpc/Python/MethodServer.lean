import Mathlib
import MpRpc.ErrorInfo
import MpRpc.Python.Packing

/-!
# MethodServer — method executors and the method server in Python

`FunctionMethodExecutor` and `SimpleMethodServer`. Besides the objects msgpack
knows, a schema may make objects of user-defined types, `U`; the user's
function and the schemas are parameters, and `W` is what the function may
depend on besides its arguments. The text that `str(err)` gives of an
exception is the parameter `str`, in which a surrogate has its three bytes. The
text may be one that `packb` does not take, and then `process_request` raises
from its `except` clause.
-/

namespace MpRpc.Python

/-- An exception that `FunctionMethodExecutor` or `SimpleMethodServer` catches. -/
inductive PyException where
  /-- `MPRPCException` of an `ErrorInfo` whose message shows `data` -/
  | mprpc (code : ErrorCode) (message : String) (data : PyObject)
  /-- `TypeError` of a call with the wrong number of arguments -/
  | typeError
  /-- raised by the user's function or by a schema -/
  | user (str : Bytes)

/-- A value given to or returned by a user's function. -/
abbrev PyValue (U : Type*) := PyObject ⊕ U

/-- A marshmallow schema: `load`, which may raise `ValidationError`, and `dump`. -/
structure Schema (U : Type*) where
  load : PyObject → Option (PyValue U)
  dump : PyValue U → Except PyException PyObject

/-- The members of `FunctionMethodExecutor`; `arity` is the number of parameters
of the function. -/
structure FunctionMethodExecutor (U W : Type*) where
  name : Bytes
  arity : Nat
  function : W → List (PyValue U) → Except PyException (PyValue U)
  paramSchemas : Option (List (Option (Schema U))) := none
  resultSchema : Option (Schema U) := none

/-- One call of a user's function. -/
structure PyInvocation (U : Type*) where
  method : Bytes
  args : List (PyValue U)

/-- `validate_data`. -/
def validateData {U : Type*} (data : PyObject) : Option (Schema U) → Except PyException (PyValue U)
  | none => .ok (.inl data)
  | some schema =>
      match schema.load data with
      | some value => .ok value
      | none => .error (.mprpc .parseError "failed to parse data: %s" data)

/-- `validate_data_list` of a list. -/
def validateDataList {U : Type*} (data : List PyObject) :
    Option (List (Option (Schema U))) → Except PyException (List (PyValue U))
  | none => .ok (data.map .inl)
  | some schemas =>
      if schemas.length ≠ data.length then
        .error (.mprpc .parseError "invalid length of data: %s" (.list data))
      else (data.zip schemas).mapM fun p => validateData p.1 p.2

/-! ## `_serialization.py` -/

/-- `pack_object`. -/
def packObject (msgpack : MsgpackPackage) (obj : PyObject) : Except PyException MessageData :=
  match msgpack.packb obj with
  | some data => .ok data
  | none => .error (.mprpc .unexpectedError "error in packing data: %s" obj)

/-- `unpack_object`. -/
def unpackObject (msgpack : MsgpackPackage) (data : MessageData) : Except PyException PyObject :=
  match msgpack.unpackb data with
  | some obj => .ok obj
  | none => .error (.mprpc .parseError "error in unpacking data" (.bytes data))

/-- The object `pack_response` packs. -/
def packResponse (msgid error result : PyObject) : PyObject :=
  .list [.int 1, msgid, error, result]

namespace FunctionMethodExecutor

variable {U W : Type*}

/-- The arguments for the function, if it can be called. -/
def arguments (m : FunctionMethodExecutor U W) (params : List PyObject) :
    Except PyException (List (PyValue U)) :=
  match validateDataList params m.paramSchemas with
  | .error err => .error err
  | .ok args => if args.length = m.arity then .ok args else .error .typeError

/-- The result as `pack_response` is given it: through the result schema, if
there is one. -/
def dumpResult (m : FunctionMethodExecutor U W) (value : PyValue U) : Except PyException PyObject :=
  match m.resultSchema, value with
  | some schema, value => schema.dump value
  | none, .inl result => .ok result
  -- msgpack does not know the type
  | none, .inr _ => .error (.mprpc .unexpectedError "error in packing data: %s" .none)

/-- The function called with `args`, and its result as `pack_response` is given it. -/
def call (m : FunctionMethodExecutor U W) (w : W) (args : List (PyValue U)) :
    Except PyException PyObject :=
  match m.function w args with
  | .error err => .error err
  | .ok value => m.dumpResult value

/-- The end of the `except` clause of `process_request`. -/
def answerException (msgpack : MsgpackPackage) (str : PyException → Bytes) (msgid : PyObject)
    (err : PyException) : Except PyException MessageData :=
  packObject msgpack (packResponse msgid (.str (str err)) .none)

/-- `process_request`, with the call it made. -/
def processRequest (msgpack : MsgpackPackage) (str : PyException → Bytes)
    (m : FunctionMethodExecutor U W) (w : W) (msgid : PyObject) (params : List PyObject) :
    Option (PyInvocation U) × Except PyException MessageData :=
  match m.arguments params with
  | .error err => (none, answerException msgpack str msgid err)
  | .ok args =>
      (some ⟨m.name, args⟩,
        match m.call w args with
        | .error err => answerException msgpack str msgid err
        | .ok result =>
            -- `pack_response` stands in the `try` block
            match packObject msgpack (packResponse msgid .none result) with
            | .error err => answerException msgpack str msgid err
            | .ok data => .ok data)

/-- `process_notification`, with the call it made. -/
def processNotification (m : FunctionMethodExecutor U W) (params : List PyObject) :
    Option (PyInvocation U) :=
  match m.arguments params with
  | .error _ => none
  | .ok args => some ⟨m.name, args⟩

end FunctionMethodExecutor

/-- `SimpleMethodServer`, that is its dictionary of methods. -/
structure SimpleMethodServer (U W : Type*) where
  methods : AList (fun _ : Bytes => FunctionMethodExecutor U W)

/-- The arguments that `done_callback` calls the handler with. -/
structure PyHandlerCall where
  error : Option PyException
  hasResponse : Bool
  response : MessageData

/-- What processing a message did: the user's function it called, and the call of
the handler. -/
structure PyProcessed (U : Type*) where
  invocation : Option (PyInvocation U) := none
  call : PyHandlerCall

namespace SimpleMethodServer

variable {U W : Type*}

/-- The constructor; a dictionary keeps the last value of a key. -/
def ofMethods (methods : List (FunctionMethodExecutor U W)) : SimpleMethodServer U W :=
  ⟨methods.foldl (fun acc m => acc.insert m.name m) ∅⟩

/-- `done_callback` after `process_message` returned or raised. -/
def doneCallback : Except PyException (Option MessageData) → PyHandlerCall
  | .ok response => ⟨none, response.isSome, response.getD []⟩
  | .error err => ⟨some err, false, []⟩

/-- `'method {} not found'.format(msg.method)`. -/
def notFoundText (name : Bytes) : Bytes := ascii "method " ++ name ++ ascii " not found"

/-- `process_message`, and `done_callback`. -/
def processMessage (msgpack : MsgpackPackage) (str : PyException → Bytes)
    (server : SimpleMethodServer U W) (w : W) (data : MessageData) : PyProcessed U :=
  match unpackObject msgpack data with
  | .error err => { call := doneCallback (.error err) }
  | .ok object =>
      match validateMessage object with
      | .error err => { call := doneCallback (.error (.mprpc .parseError err.message err.data)) }
      | .ok (.request msgid method params) =>
          match server.methods.lookup method with
          | none =>
              { call := doneCallback ((packObject msgpack
                  (packResponse msgid (.str (notFoundText method)) .none)).map some) }
          | some m =>
              { invocation := (m.processRequest msgpack str w msgid params).1
                call := doneCallback ((m.processRequest msgpack str w msgid params).2.map some) }
      | .ok (.notification method params) =>
          match server.methods.lookup method with
          | none => { call := doneCallback (.ok none) }
          | some m =>
              { invocation := m.processNotification params
                call := doneCallback (.ok none) }
      | .ok (.response ..) =>
          { call := doneCallback
              (.error (.mprpc .invalidMessage "message must be a request or response" object)) }

theorem lookup_foldl_insert (ms : List (FunctionMethodExecutor U W))
    (methods : AList (fun _ : Bytes => FunctionMethodExecutor U W)) (name : Bytes) :
    (ms.foldl (fun acc m => acc.insert m.name m) methods).lookup name =
      ((ms.reverse.find? fun m => m.name = name).or (methods.lookup name)) := by
  induction ms generalizing methods with
  | nil => simp
  | cons m ms ih =>
    rw [List.foldl_cons, ih, List.reverse_cons, List.find?_append, Option.or_assoc]
    by_cases hname : m.name = name
    · subst hname
      simp [AList.lookup_insert]
    · simp [AList.lookup_insert_ne (Ne.symm hname), hname]

/-- **The last registration of a name wins.** -/
theorem lookup_ofMethods (ms : List (FunctionMethodExecutor U W)) (name : Bytes) :
    (ofMethods ms).methods.lookup name = ms.reverse.find? fun m => m.name = name := by
  simp [ofMethods, lookup_foldl_insert]

end SimpleMethodServer

end MpRpc.Python
