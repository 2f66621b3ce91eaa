import Mathlib
import MpRpc.Message

/-!
# Execution — method executors and the method server

`function_method_executor` and `simple_method_server`. The user's function is
a parameter: `A` is the type of argument values and `W` what the function may
depend on besides its arguments, so that a task of the pool that runs it is
given a `w : W` by its environment. Parameters are converted by the tuple
adaptor of msgpack-c for types with `adaptor::convert`, which neither asks for
the missing elements of a short array nor looks at the extra ones of a long
one.
-/

namespace MpRpc

open Msgpack

/-- One parameter type of a method: its conversion, which may throw
`type_error`, and its default value. -/
structure Param (A : Type*) where
  convert : Object → Option A
  default : A

/-- `StdTupleConverter::convert`. -/
def convertParams {A : Type*} : List (Param A) → List Object → Option (List A)
  | [], _ => some []
  | p :: ps, [] => (convertParams ps []).map (p.default :: ·)
  | p :: ps, o :: os =>
      match p.convert o with
      | none => none
      | some a => (convertParams ps os).map (a :: ·)

/-- What a call of the user's function did: it returned a value, or threw a
`std::exception`. A result that cannot be packed throws inside the same `try`
block and counts as thrown. -/
inductive Outcome where
  | returned (result : { o : Object // o.Packable })
  | threw (what : { s : Bytes // s.length < 2 ^ 32 })

/-- A registered method; a `void` function returns nil. -/
structure MethodExecutor (A W : Type*) where
  name : Bytes
  params : List (Param A)
  function : W → List A → Outcome

/-- One call of a user's function. -/
structure Invocation (A : Type*) where
  method : Bytes
  args : List A
  outcome : Outcome

namespace MethodExecutor

variable {A W : Type*}

/-- `params_as<params_tuple_type>()`; the parameters of a request or a
notification are an array. -/
def paramsAs (m : MethodExecutor A W) (msg : Message) : Option (List A) :=
  match msg.params with
  | some (.array params) => convertParams m.params params
  | _ => none

/-- `invoke`; `none` is the `mprpc::exception` of `params_as`. -/
def invoke (m : MethodExecutor A W) (w : W) (msg : Message) : Option (Invocation A) :=
  (m.paramsAs msg).map fun args => ⟨m.name, args, m.function w args⟩

/-- The response to a request after `invoke`. -/
def respond (msgid : Msgid) : Option (Invocation A) → MessageData
  | none => packErrorResponse msgid (.str (ascii "failed to convert parameters"))
  | some inv =>
      match inv.outcome with
      | .returned result => packResponse msgid result.1
      | .threw what => packErrorResponse msgid (.str what.1)

/-- `process_request`, with the call it made. -/
def processRequest (m : MethodExecutor A W) (w : W) (msg : Message) :
    Option (Invocation A) × MessageData :=
  (m.invoke w msg, respond msg.msgid (m.invoke w msg))

/-- `process_notification`, with the call it made. -/
def processNotification (m : MethodExecutor A W) (w : W) (msg : Message) :
    Option (Invocation A) :=
  m.invoke w msg

end MethodExecutor

/-- The arguments an `on_message_processed_handler` is called with. -/
structure HandlerCall where
  error : ErrorInfo
  responseExists : Bool
  response : MessageData

/-- `simple_method_server`, that is its `methods_`. -/
structure SimpleMethodServer (A W : Type*) where
  methods : AList (fun _ : Bytes => MethodExecutor A W)

namespace SimpleMethodServer

variable {A W : Type*}

/-- `methods_.emplace`, which keeps the entry that is there. -/
def emplace (methods : AList (fun _ : Bytes => MethodExecutor A W)) (m : MethodExecutor A W) :
    AList (fun _ : Bytes => MethodExecutor A W) :=
  if m.name ∈ methods then methods else methods.insert m.name m

/-- The constructor. -/
def ofMethods (methods : List (MethodExecutor A W)) : SimpleMethodServer A W :=
  ⟨methods.foldl emplace ∅⟩

def methodNotFound (name : Bytes) : HandlerCall where
  error := .of .methodNotFound
    ("method " ++ String.ofList (name.map fun b => Char.ofNat b.toNat) ++ " not found")
  responseExists := false
  response := []

/-- What `do_process_message` did: the user's function it called, and the call
of its handler or the exception that left it instead. -/
structure Processed (A : Type*) where
  invocation : Option (Invocation A) := none
  handled : Except StdException HandlerCall

/-- `do_process_message`. The arguments of the first log line are evaluated
before the method is looked up, and `session->remote_address()` throws when
the socket has no peer any more. -/
def doProcessMessage (server : SimpleMethodServer A W) (connected : Bool) (w : W)
    (msg : Message) : Processed A :=
  match msg.type with
  | some .request =>
      if !connected then { handled := .error .systemError }
      else
        match server.methods.lookup msg.method with
        -- `find_method` has called the handler
        | none => { handled := .ok (methodNotFound msg.method) }
        | some m =>
            { invocation := (m.processRequest w msg).1
              handled := .ok ⟨{}, true, (m.processRequest w msg).2⟩ }
  | some .notification =>
      if !connected then { handled := .error .systemError }
      else
        match server.methods.lookup msg.method with
        | none => { handled := .ok (methodNotFound msg.method) }
        | some m =>
            { invocation := m.processNotification w msg
              handled := .ok ⟨{}, false, []⟩ }
  | _ => { handled := .ok ⟨.of .invalidMessage "invalid message type", false, []⟩ }

/-! ## Which method a name means -/

theorem lookup_foldl_emplace (ms : List (MethodExecutor A W))
    (methods : AList (fun _ : Bytes => MethodExecutor A W)) (name : Bytes) :
    (ms.foldl emplace methods).lookup name =
      (methods.lookup name).or (ms.find? fun m => m.name = name) := by
  induction ms generalizing methods with
  | nil => simp
  | cons m ms ih =>
    rw [List.foldl_cons, ih, emplace]
    by_cases hname : m.name = name
    · subst hname
      split
      · rename_i hmem
        obtain ⟨m', hm'⟩ := Option.isSome_iff_exists.mp (AList.lookup_isSome.mpr hmem)
        simp [hm']
      · rename_i hmem
        simp [AList.lookup_eq_none.mpr hmem]
    · have hfind : (m :: ms).find? (fun m => m.name = name) = ms.find? fun m => m.name = name := by
        simp [hname]
      rw [hfind]
      split
      · rfl
      · rw [AList.lookup_insert_ne (Ne.symm hname)]

/-- **The first registration of a name wins.** -/
theorem lookup_ofMethods (ms : List (MethodExecutor A W)) (name : Bytes) :
    (ofMethods ms).methods.lookup name = ms.find? fun m => m.name = name := by
  simp [ofMethods, lookup_foldl_emplace]

end SimpleMethodServer

/-! ## What a response says -/

namespace MethodExecutor

variable {A : Type*}

/-- The error and the result that a response to the call carries. -/
def answer : Option (Invocation A) → Object × Object
  | none => (.str (ascii "failed to convert parameters"), .nil)
  | some inv =>
      match inv.outcome with
      | .returned result => (.nil, result.1)
      | .threw what => (.str what.1, .nil)

/-- **A response is read back as it was packed.** -/
theorem ofData_respond (msgid : Msgid) (inv : Option (Invocation A)) :
    Message.ofData (respond msgid inv) =
      .ok (Message.response msgid (answer inv).1 (answer inv).2) := by
  have herror : ∀ s : Bytes, s.length < 2 ^ 32 →
      Message.ofData (packErrorResponse msgid (.str s)) =
        .ok (Message.response msgid (.str s) .nil) := by
    intro s hs
    refine ofData_packedResponse msgid ?_ Object.packable_nil
    simpa [Object.Packable, Object.tokens, Token.Sized] using hs
  cases inv with
  | none => exact herror (ascii "failed to convert parameters") (by decide)
  | some inv =>
    obtain ⟨method, args, outcome⟩ := inv
    cases outcome with
    | returned result => exact ofData_packedResponse msgid Object.packable_nil result.2
    | threw what => exact herror what.1 what.2

/-- The response has an error exactly if the parameters did not convert or the
function threw. -/
theorem hasError_answer (msgid : Msgid) (inv : Option (Invocation A)) :
    (Message.response msgid (answer inv).1 (answer inv).2).hasError = .ok true ↔
      inv = none ∨ ∃ i what, inv = some i ∧ i.outcome = .threw what := by
  cases inv with
  | none => simp [Message.hasError, Message.response, answer]
  | some inv =>
    obtain ⟨method, args, outcome⟩ := inv
    cases outcome with
    | returned result => simp [Message.hasError, Message.response, answer, Object.nil]
    | threw what => exact iff_of_true rfl (.inr ⟨_, what, rfl, rfl⟩)

end MethodExecutor

end MpRpc
