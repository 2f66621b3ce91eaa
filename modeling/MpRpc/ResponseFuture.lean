import MpRpc.Message

/-!
# ResponseFuture — the future of a response

`impl::response_future_data`, the cell a promise and its future share. Each
member function runs under the mutex of the cell, so it is one step from cell
to cell; what it posts to the thread pool is appended to `posted`. The cell
is written once: `completion` is the pair of error and message it was
completed with, wherever that pair is kept, and the three functions are
specified by what they do to it.
-/

namespace MpRpc

/-- One invocation of a handler posted to the thread pool. -/
structure PostedCall (H : Type*) where
  handler : H
  error : ErrorInfo
  msg : Message

/-- The members of `response_future_data`. `onResponse` is `none` for an empty
function, and `posted` holds the calls that `threads_.post` was given. -/
structure ResponseFutureData (H : Type*) where
  hasResponse : Bool := false
  error : ErrorInfo := {}
  msg : Message := {}
  hasHandler : Bool := false
  onResponse : Option H := none
  posted : List (PostedCall H) := []

namespace ResponseFutureData

variable {H : Type*} {d d' : ResponseFutureData H}

def alreadyCompleted : ErrorInfo :=
  .of .invalidFutureUse "this future already has a response or an error"

def alreadyHandled : ErrorInfo :=
  .of .invalidFutureUse "this future already has a handler"

/-- The common body of `set_error` and `set_response`: `stored` is the cell
with the value kept for a later handler, used when there is none yet. -/
def settle (d stored : ResponseFutureData H) (error : ErrorInfo) (msg : Message) :
    Except ErrorInfo (ResponseFutureData H) :=
  if d.hasResponse then .error alreadyCompleted
  else
    match d.onResponse with
    | none => .ok { stored with hasResponse := true }
    | some handler =>
        .ok { d with hasResponse := true, posted := d.posted ++ [⟨handler, error, msg⟩] }

/-- `set_error`. -/
def setError (d : ResponseFutureData H) (error : ErrorInfo) :
    Except ErrorInfo (ResponseFutureData H) :=
  d.settle { d with error } error {}

/-- `set_response`. -/
def setResponse (d : ResponseFutureData H) (msg : Message) :
    Except ErrorInfo (ResponseFutureData H) :=
  d.settle { d with msg } {} msg

/-- `set_handler`. -/
def setHandler (d : ResponseFutureData H) (handler : H) :
    Except ErrorInfo (ResponseFutureData H) :=
  if d.hasHandler then .error alreadyHandled
  else if !d.hasResponse then
    .ok { d with hasHandler := true, onResponse := some handler }
  else
    .ok { d with hasHandler := true, posted := d.posted ++ [⟨handler, d.error, d.msg⟩] }

/-- The error and the message the future was completed with: those handed to
its handler, or those kept until a handler comes. -/
def completion (d : ResponseFutureData H) : Option (ErrorInfo × Message) :=
  if d.hasResponse then
    match d.posted with
    | [] => some (d.error, d.msg)
    | call :: _ => some (call.error, call.msg)
  else none

/-- What every cell built by the three functions satisfies. -/
structure Wf (d : ResponseFutureData H) : Prop where
  /-- Nothing is kept or posted before completion. -/
  pending : d.hasResponse = false → d.error = {} ∧ d.msg = {} ∧ d.posted = []
  /-- Nothing is posted before a handler is set. -/
  unhandled : d.hasHandler = false → d.onResponse = none ∧ d.posted = []

theorem wf_default : Wf ({} : ResponseFutureData H) :=
  ⟨fun _ => ⟨rfl, rfl, rfl⟩, fun _ => ⟨rfl, rfl⟩⟩

theorem completion_eq_none : d.completion = none ↔ d.hasResponse = false := by
  unfold completion
  cases h : d.hasResponse <;> cases d.posted <;> simp

theorem setError_of_completed (h : d.completion ≠ none) (error : ErrorInfo) :
    d.setError error = .error alreadyCompleted := by
  rw [ne_eq, completion_eq_none, Bool.not_eq_false] at h
  simp [setError, settle, h]

theorem setResponse_of_completed (h : d.completion ≠ none) (msg : Message) :
    d.setResponse msg = .error alreadyCompleted := by
  rw [ne_eq, completion_eq_none, Bool.not_eq_false] at h
  simp [setResponse, settle, h]

/-- **Completion.** `settle` on a pending cell gives a well-formed cell that is
completed with the given pair, whether the pair is kept or posted. -/
theorem Wf.settle (h : d.Wf) (hp : d.completion = none) {stored : ResponseFutureData H}
    {error : ErrorInfo} {msg : Message} (herror : stored.error = error)
    (hmsg : stored.msg = msg) (hhandler : stored.onResponse = d.onResponse)
    (hposted : stored.posted = d.posted) :
    ∃ d', d.settle stored error msg = .ok d' ∧ d'.Wf ∧
      d'.completion = some (error, msg) := by
  rw [completion_eq_none] at hp
  have hnone := (h.pending hp).2.2
  cases hh : d.onResponse with
  | none =>
    refine ⟨{ stored with hasResponse := true }, by simp [ResponseFutureData.settle, hp, hh],
      ⟨by simp, fun _ => ⟨hhandler.trans hh, hposted.trans hnone⟩⟩, ?_⟩
    simp [completion, hposted, hnone, herror, hmsg]
  | some handler =>
    refine ⟨{ d with hasResponse := true, posted := d.posted ++ [⟨handler, error, msg⟩] },
      by simp [ResponseFutureData.settle, hp, hh], ⟨by simp, fun hn => ?_⟩, ?_⟩
    · simp [(h.unhandled hn).1] at hh
    · simp [completion, hnone]

theorem Wf.setError (h : d.Wf) (hp : d.completion = none) (error : ErrorInfo) :
    ∃ d', d.setError error = .ok d' ∧ d'.Wf ∧ d'.completion = some (error, {}) :=
  h.settle hp rfl (h.pending (completion_eq_none.mp hp)).2.1 rfl rfl

theorem Wf.setResponse (h : d.Wf) (hp : d.completion = none) (msg : Message) :
    ∃ d', d.setResponse msg = .ok d' ∧ d'.Wf ∧ d'.completion = some ({}, msg) :=
  h.settle hp (h.pending (completion_eq_none.mp hp)).1 rfl rfl rfl

/-- Setting a handler changes who hears of the completion, never the
completion. -/
theorem Wf.setHandler (h : d.Wf) {handler : H} (hs : d.setHandler handler = .ok d') :
    d'.Wf ∧ d'.completion = d.completion := by
  unfold ResponseFutureData.setHandler at hs
  split at hs
  · cases hs
  · rename_i hn
    have hposted := (h.unhandled (by simpa using hn)).2
    split at hs
    · rename_i hp
      have hp : d.hasResponse = false := by simpa using hp
      cases hs
      exact ⟨⟨fun _ => h.pending hp, by simp⟩, rfl⟩
    · rename_i hp
      have hp : d.hasResponse = true := by simpa using hp
      cases hs
      exact ⟨⟨by simp [hp], by simp⟩, by simp [completion, hposted, hp]⟩

end ResponseFutureData

/-! ## `response_future::then` -/

/-- Which of the two handlers of `then(on_success, on_failure)` runs. -/
inductive Continuation where
  | onSuccess (msg : Message)
  | onFailure (error : ErrorInfo)

/-- The handler that `then(on_success, on_failure)` installs. -/
def thenHandler (error : ErrorInfo) (msg : Message) : Continuation :=
  if error.hasError then .onFailure error else .onSuccess msg

end MpRpc
