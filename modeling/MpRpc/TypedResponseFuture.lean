import MpRpc.ResponseFuture

/-!
# TypedResponseFuture — the future of a typed call

`typed_response_future<R>::then` turns the completion of a future into calls of
the user's two handlers. The conversion `as<R>()` of msgpack is a parameter, and
so is whether a handler throws `mprpc::exception`: both handlers are called
inside the `try` block whose `catch` clause calls `on_failure`.
-/

namespace MpRpc

open Msgpack

/-- `message::result_as`, for a conversion that may throw `msgpack::type_error`. -/
def Message.resultAs {R : Type*} (msg : Message) (as : Object → Option R) : Except ErrorInfo R :=
  match msg.type, msg.result with
  | some .response, some result =>
      match as result with
      | some value => .ok value
      | none => .error (Message.invalid msg.handle "failed to convert result")
  | _, _ =>
      .error (Message.invalid msg.handle "tried to access to result of message not a response")

/-- A call of one of the user's handlers. -/
inductive TypedCall (R : Type*) where
  | onSuccess (result : R)
  | onFailure (error : ErrorInfo)

namespace TypedResponseFuture

variable {R : Type*}

/-- `on_failure` for a response that has an error. -/
def errorOnServer (msg : Message) : TypedCall R :=
  .onFailure (.of .unexpectedError "error on server" (msg.error.map pack))

/-- A call from inside the `try` block. -/
def attempt (throws : TypedCall R → Option ErrorInfo) (call : TypedCall R) : List (TypedCall R) :=
  call :: ((throws call).map TypedCall.onFailure).toList

/-- The handler for a message that `then` installs. -/
def onMessage (as : Object → Option R) (throws : TypedCall R → Option ErrorInfo)
    (msg : Message) : List (TypedCall R) :=
  match msg.hasError with
  | .error info => [.onFailure info]
  | .ok true => attempt throws (errorOnServer msg)
  | .ok false =>
      match msg.resultAs as with
      | .error info => [.onFailure info]
      | .ok result => attempt throws (.onSuccess result)

/-- The calls that follow the completion of the future. -/
def onCompletion (as : Object → Option R) (throws : TypedCall R → Option ErrorInfo)
    (error : ErrorInfo) (msg : Message) : List (TypedCall R) :=
  match thenHandler error msg with
  | .onSuccess msg => onMessage as throws msg
  | .onFailure error => [.onFailure error]

/-- The handler for a message of `typed_response_future<void>`, which does not look at
the result. -/
def onMessageVoid (throws : TypedCall Unit → Option ErrorInfo) (msg : Message) :
    List (TypedCall Unit) :=
  match msg.hasError with
  | .error info => [.onFailure info]
  | .ok true => attempt throws (errorOnServer msg)
  | .ok false => attempt throws (.onSuccess ())

/-- The calls that follow the completion of a `typed_response_future<void>`. -/
def onCompletionVoid (throws : TypedCall Unit → Option ErrorInfo) (error : ErrorInfo)
    (msg : Message) : List (TypedCall Unit) :=
  match thenHandler error msg with
  | .onSuccess msg => onMessageVoid throws msg
  | .onFailure error => [.onFailure error]

/-! ## How many calls are made -/

theorem length_attempt {throws : TypedCall R → Option ErrorInfo} {call : TypedCall R} :
    (attempt throws call).length = 1 ↔ throws call = none := by
  unfold attempt
  cases throws call <;> simp

/-- No handler throws `mprpc::exception` into the `try` block: not `on_failure` when it
is told of an error on the server, and not `on_success`. -/
structure Quiet (as : Object → Option R) (throws : TypedCall R → Option ErrorInfo)
    (msg : Message) : Prop where
  onFailure : msg.hasError = .ok true → throws (errorOnServer msg) = none
  onSuccess : ∀ result, msg.hasError = .ok false → msg.resultAs as = .ok result →
    throws (.onSuccess result) = none

/-- The same for `typed_response_future<void>`. -/
structure QuietVoid (throws : TypedCall Unit → Option ErrorInfo) (msg : Message) : Prop where
  onFailure : msg.hasError = .ok true → throws (errorOnServer msg) = none
  onSuccess : msg.hasError = .ok false → throws (.onSuccess ()) = none

theorem length_onMessage {as : Object → Option R} {throws : TypedCall R → Option ErrorInfo}
    {msg : Message} : (onMessage as throws msg).length = 1 ↔ Quiet as throws msg := by
  unfold onMessage
  cases hhas : msg.hasError with
  | error info => exact iff_of_true rfl ⟨by simp [hhas], by simp [hhas]⟩
  | ok has =>
    cases has with
    | true =>
      rw [length_attempt]
      exact ⟨fun h => ⟨fun _ => h, by simp [hhas]⟩, fun h => h.onFailure hhas⟩
    | false =>
      cases hresult : msg.resultAs as with
      | error info => exact iff_of_true rfl ⟨by simp [hhas], by simp [hresult]⟩
      | ok result =>
        simp only [length_attempt]
        constructor
        · intro h
          refine ⟨by simp [hhas], ?_⟩
          intro result' _ hresult'
          cases hresult.symm.trans hresult'
          exact h
        · intro h
          exact h.onSuccess result hhas hresult

theorem length_onMessageVoid {throws : TypedCall Unit → Option ErrorInfo} {msg : Message} :
    (onMessageVoid throws msg).length = 1 ↔ QuietVoid throws msg := by
  unfold onMessageVoid
  cases hhas : msg.hasError with
  | error info => exact iff_of_true rfl ⟨by simp [hhas], by simp [hhas]⟩
  | ok has =>
    cases has with
    | true =>
      rw [length_attempt]
      exact ⟨fun h => ⟨fun _ => h, by simp [hhas]⟩, fun h => h.onFailure hhas⟩
    | false =>
      rw [length_attempt]
      exact ⟨fun h => ⟨by simp [hhas], fun _ => h⟩, fun h => h.onSuccess hhas⟩

/-- **When one handler is called, once**: the client has reported an error, or no handler
throws into the `try` block around the calls. -/
theorem one_call_iff_quiet (as : Object → Option R) (throws : TypedCall R → Option ErrorInfo)
    (throwsVoid : TypedCall Unit → Option ErrorInfo) (error : ErrorInfo) (msg : Message) :
    ((onCompletion as throws error msg).length = 1 ↔
        (error.hasError = false → Quiet as throws msg)) ∧
      ((onCompletionVoid throwsVoid error msg).length = 1 ↔
        (error.hasError = false → QuietVoid throwsVoid msg)) := by
  unfold onCompletion onCompletionVoid thenHandler
  cases error.hasError with
  | true => simp
  | false =>
    simp only [Bool.false_eq_true, if_false, true_implies]
    exact ⟨length_onMessage, length_onMessageVoid⟩

/-- An exception of the user's code. -/
def userError : ErrorInfo := .of .unexpectedError "balance is negative"

/-- `on_success` throws and `on_failure` does not. -/
def successThrows : TypedCall Msgid → Option ErrorInfo
  | .onSuccess _ => some userError
  | .onFailure _ => none

/-- A response whose result converts: `on_success` is called with it, and `on_failure`
with the exception that it throws. -/
theorem both_handlers_called :
    onCompletion asMsgid successThrows {} (Message.response 0 .nil (.positiveInteger 5)) =
        [.onSuccess 5, .onFailure userError] ∧
      (onCompletion asMsgid successThrows {}
        (Message.response 0 .nil (.positiveInteger 5))).length ≠ 1 :=
  ⟨rfl, by decide⟩

end TypedResponseFuture

end MpRpc
