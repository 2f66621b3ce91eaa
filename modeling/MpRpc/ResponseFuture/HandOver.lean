import MpRpc.ResponseFuture

/-!
# HandOver — how a value gets to a handler

The value of a future and its handler come from different threads, in either
order, and either may come more than once. Each call runs under the mutex of
the cell, so the calls on one cell form a sequence, and what the cell holds
after a sequence is said by two entries of it: the first value and the first
handler. They meet in one posted invocation, and every later call throws.
-/

namespace MpRpc

/-- A call of one of the three functions of `response_future_data`. -/
inductive FutureCall (H : Type*) where
  | setResponse (msg : Message)
  | setError (error : ErrorInfo)
  | setHandler (handler : H)

namespace FutureCall

variable {H : Type*}

/-- The error and the message a call brings. -/
def value : FutureCall H → Option (ErrorInfo × Message)
  | .setResponse msg => some ({}, msg)
  | .setError error => some (error, {})
  | .setHandler _ => none

/-- The handler a call brings. -/
def handler : FutureCall H → Option H
  | .setHandler handler => some handler
  | _ => none

/-- One of the calls `earlier` brought what `c` brings again. -/
def Further (earlier : List (FutureCall H)) (c : FutureCall H) : Prop :=
  (c.value.isSome ∧ ∃ e ∈ earlier, e.value.isSome) ∨
    (c.handler.isSome ∧ ∃ e ∈ earlier, e.handler.isSome)

end FutureCall

namespace ResponseFutureData

variable {H : Type*} {d : ResponseFutureData H}

/-- The function that is called. -/
def call (d : ResponseFutureData H) : FutureCall H → Except ErrorInfo (ResponseFutureData H)
  | .setResponse msg => d.setResponse msg
  | .setError error => d.setError error
  | .setHandler handler => d.setHandler handler

/-- One call: the cell after it, and the exception it throws. -/
def perform (d : ResponseFutureData H) (c : FutureCall H) :
    ResponseFutureData H × Option ErrorInfo :=
  match d.call c with
  | .ok d' => (d', none)
  -- the check comes before the first member is written
  | .error info => (d, some info)

/-- The cell after a sequence of calls. -/
def performAll (d : ResponseFutureData H) (cs : List (FutureCall H)) : ResponseFutureData H :=
  cs.foldl (fun d c => (d.perform c).1) d

/-- The invocation that a handler and a value lead to once both are there. -/
def posting : Option H → Option (ErrorInfo × Message) → List (PostedCall H)
  | some handler, some (error, msg) => [⟨handler, error, msg⟩]
  | _, _ => []

/-- The cell after calls whose first handler and first value are these. -/
structure Holds (d : ResponseFutureData H) (handler : Option H)
    (value : Option (ErrorInfo × Message)) : Prop where
  hasResponse : d.hasResponse = value.isSome
  hasHandler : d.hasHandler = handler.isSome
  posted : d.posted = posting handler value
  /-- A handler that is there before the value waits in the cell. -/
  waiting : value = none → d.onResponse = handler
  /-- A value that is there before the handler is kept in the cell. -/
  kept : handler = none → (d.error, d.msg) = value.getD ({}, {})

theorem holds_default : Holds ({} : ResponseFutureData H) none none :=
  ⟨rfl, rfl, rfl, fun _ => rfl, fun _ => rfl⟩

variable {handler : Option H} {value : Option (ErrorInfo × Message)}

/-- **Bringing a value.** The common body of `set_error` and `set_response` on a
cell without a value. -/
theorem Holds.settle (h : d.Holds handler none) {stored : ResponseFutureData H}
    {error : ErrorInfo} {msg : Message} (herror : handler = none → stored.error = error)
    (hmsg : handler = none → stored.msg = msg)
    (hstored : stored = { d with error := stored.error, msg := stored.msg }) :
    ∃ d', d.settle stored error msg = .ok d' ∧ d'.Holds handler (some (error, msg)) := by
  have hres : d.hasResponse = false := h.hasResponse
  have hwait := h.waiting rfl
  have hposted : d.posted = [] := by
    rw [h.posted]
    cases handler <;> rfl
  cases handler with
  | none =>
    refine ⟨{ stored with hasResponse := true },
      by simp [ResponseFutureData.settle, hres, hwait], ?_⟩
    rw [hstored]
    exact ⟨rfl, h.hasHandler, hposted, fun hn => absurd hn (Option.some_ne_none _),
      fun _ => by rw [herror rfl, hmsg rfl]; rfl⟩
  | some f =>
    refine ⟨{ d with hasResponse := true, posted := d.posted ++ [⟨f, error, msg⟩] },
      by simp [ResponseFutureData.settle, hres, hwait], ?_⟩
    exact ⟨rfl, h.hasHandler, by simp [hposted, posting],
      fun hn => absurd hn (Option.some_ne_none _), fun hn => absurd hn (Option.some_ne_none _)⟩

theorem Holds.setError (h : d.Holds handler none) (error : ErrorInfo) :
    ∃ d', d.setError error = .ok d' ∧ d'.Holds handler (some (error, {})) := by
  apply h.settle
  · exact fun _ => rfl
  · intro hn
    exact congrArg Prod.snd (h.kept hn)
  · rfl

theorem Holds.setResponse (h : d.Holds handler none) (msg : Message) :
    ∃ d', d.setResponse msg = .ok d' ∧ d'.Holds handler (some ({}, msg)) := by
  apply h.settle
  · intro hn
    exact congrArg Prod.fst (h.kept hn)
  · exact fun _ => rfl
  · rfl

/-- **Bringing a handler** to a cell without one. -/
theorem Holds.setHandler (h : d.Holds none value) (f : H) :
    ∃ d', d.setHandler f = .ok d' ∧ d'.Holds (some f) value := by
  have hhandler : d.hasHandler = false := h.hasHandler
  have hres := h.hasResponse
  have hposted : d.posted = [] := h.posted
  cases value with
  | none =>
    refine ⟨{ d with hasHandler := true, onResponse := some f }, ?_, ?_⟩
    · simp [ResponseFutureData.setHandler, hhandler, hres]
    · exact ⟨hres, rfl, hposted, fun _ => rfl, fun hn => absurd hn (Option.some_ne_none _)⟩
  | some v =>
    refine ⟨{ d with hasHandler := true, posted := d.posted ++ [⟨f, d.error, d.msg⟩] }, ?_, ?_⟩
    · simp [ResponseFutureData.setHandler, hhandler, hres]
    · have hv : (d.error, d.msg) = v := h.kept rfl
      exact ⟨hres, rfl, by simp [hposted, posting, ← hv],
        fun hn => absurd hn (Option.some_ne_none _), fun hn => absurd hn (Option.some_ne_none _)⟩

/-- The exception of a call on a cell that has this handler and this value. -/
def refusal (handler : Option H) (value : Option (ErrorInfo × Message)) (c : FutureCall H) :
    Option ErrorInfo :=
  if c.handler.isSome && handler.isSome then some alreadyHandled
  else if c.value.isSome && value.isSome then some alreadyCompleted
  else none

theorem perform_ok {d' : ResponseFutureData H} {c : FutureCall H} (h : d.call c = .ok d') :
    d.perform c = (d', none) := by
  simp [perform, h]

theorem perform_error {info : ErrorInfo} {c : FutureCall H} (h : d.call c = .error info) :
    d.perform c = (d, some info) := by
  simp [perform, h]

/-- A call that throws leaves the cell as it was. -/
theorem perform_fst_of_thrown {info : ErrorInfo} {c : FutureCall H}
    (h : (d.perform c).2 = some info) : (d.perform c).1 = d := by
  cases hc : d.call c with
  | ok d' =>
    rw [perform_ok hc] at h
    cases h
  | error e => rw [perform_error hc]

/-- **One call.** The first value and the first handler stay, and the call throws
exactly when it brings what is there already. -/
theorem Holds.perform (h : d.Holds handler value) (c : FutureCall H) :
    (d.perform c).1.Holds (handler.or c.handler) (value.or c.value) ∧
      (d.perform c).2 = refusal handler value c := by
  cases c with
  | setHandler f =>
    cases handler with
    | none =>
      obtain ⟨d', hd, hh⟩ := h.setHandler f
      rw [perform_ok (c := .setHandler f) hd]
      exact ⟨by simpa [FutureCall.handler, FutureCall.value] using hh, rfl⟩
    | some g =>
      have hd : d.setHandler f = .error alreadyHandled := by
        simp [ResponseFutureData.setHandler, h.hasHandler]
      rw [perform_error (c := .setHandler f) hd]
      exact ⟨by simpa [FutureCall.value] using h, rfl⟩
  | setError error =>
    cases value with
    | none =>
      obtain ⟨d', hd, hh⟩ := h.setError error
      rw [perform_ok (c := .setError error) hd]
      exact ⟨by simpa [FutureCall.handler, FutureCall.value] using hh, rfl⟩
    | some v =>
      have hd : d.setError error = .error alreadyCompleted := by
        simp [ResponseFutureData.setError, ResponseFutureData.settle, h.hasResponse]
      rw [perform_error (c := .setError error) hd]
      exact ⟨by simpa [FutureCall.handler] using h, rfl⟩
  | setResponse msg =>
    cases value with
    | none =>
      obtain ⟨d', hd, hh⟩ := h.setResponse msg
      rw [perform_ok (c := .setResponse msg) hd]
      exact ⟨by simpa [FutureCall.handler, FutureCall.value] using hh, rfl⟩
    | some v =>
      have hd : d.setResponse msg = .error alreadyCompleted := by
        simp [ResponseFutureData.setResponse, ResponseFutureData.settle, h.hasResponse]
      rw [perform_error (c := .setResponse msg) hd]
      exact ⟨by simpa [FutureCall.handler] using h, rfl⟩

/-- **A sequence of calls** leaves its first handler and its first value. -/
theorem Holds.performAll (h : d.Holds handler value) (cs : List (FutureCall H)) :
    (d.performAll cs).Holds (handler.or (cs.findSome? FutureCall.handler))
      (value.or (cs.findSome? FutureCall.value)) := by
  induction cs generalizing d handler value with
  | nil => simpa [ResponseFutureData.performAll] using h
  | cons c cs ih =>
    have hrest := ih (h.perform c).1
    rw [← List.singleton_append, List.findSome?_append, List.findSome?_append,
      List.findSome?_singleton, List.findSome?_singleton, ← Option.or_assoc, ← Option.or_assoc]
    exact hrest

theorem holds_performAll (cs : List (FutureCall H)) :
    (performAll {} cs).Holds (cs.findSome? FutureCall.handler)
      (cs.findSome? FutureCall.value) := by
  simpa using holds_default.performAll cs

/-! ## What a caller sees -/

/-- A call is refused, with `invalid_future_use`, if an earlier one brought the
same. -/
theorem refusal_of_further {earlier : List (FutureCall H)} {c : FutureCall H}
    (h : FutureCall.Further earlier c) :
    ∃ text, refusal (earlier.findSome? FutureCall.handler)
      (earlier.findSome? FutureCall.value) c = some (.of .invalidFutureUse text) := by
  by_cases hh : c.handler.isSome ∧ (earlier.findSome? FutureCall.handler).isSome
  · exact ⟨_, by simp only [refusal, hh.1, hh.2, Bool.and_self, if_true]; rfl⟩
  · have hv : c.value.isSome ∧ (earlier.findSome? FutureCall.value).isSome := by
      rw [List.findSome?_isSome_iff] at hh ⊢
      exact h.resolve_right hh
    rw [← Bool.and_eq_true] at hh
    exact ⟨_, by simp only [refusal, hh, hv.1, hv.2, Bool.and_self, if_true]; rfl⟩

theorem refusal_of_not_further {earlier : List (FutureCall H)} {c : FutureCall H}
    (h : ¬ FutureCall.Further earlier c) :
    refusal (earlier.findSome? FutureCall.handler) (earlier.findSome? FutureCall.value) c =
      none := by
  unfold FutureCall.Further at h
  rw [← List.findSome?_isSome_iff, ← List.findSome?_isSome_iff, not_or] at h
  simp only [refusal, Bool.and_eq_true, h.1, h.2, if_false]

/-- **The hand-over.** After any sequence of calls on a new cell, one invocation
has been posted if there were a value and a handler, and none otherwise; it
carries the first handler and the first value; and a call in the sequence throws
`invalid_future_use`, and leaves the cell as it was, exactly if it brings a
second value or a second handler. -/
theorem posted_once (cs : List (FutureCall H)) :
    (performAll {} cs).posted.length =
        (if (∃ c ∈ cs, c.value.isSome) ∧ (∃ c ∈ cs, c.handler.isSome) then 1 else 0) ∧
      (∀ call ∈ (performAll {} cs).posted,
        cs.findSome? FutureCall.handler = some call.handler ∧
          cs.findSome? FutureCall.value = some (call.error, call.msg)) ∧
      ∀ earlier c later, cs = earlier ++ c :: later →
        (FutureCall.Further earlier c →
          ((performAll {} earlier).perform c).1 = performAll {} earlier ∧
            ∃ text, ((performAll {} earlier).perform c).2 =
              some (.of .invalidFutureUse text)) ∧
        (¬ FutureCall.Further earlier c → ((performAll {} earlier).perform c).2 = none) := by
  have hall := holds_performAll cs
  refine ⟨?_, ?_, ?_⟩
  · simp only [hall.posted, ← List.findSome?_isSome_iff]
    cases cs.findSome? FutureCall.handler with
    | none => simp [posting]
    | some handler =>
      cases cs.findSome? FutureCall.value with
      | none => simp [posting]
      | some value => simp [posting]
  · intro call hcall
    rw [hall.posted] at hcall
    cases hh : cs.findSome? FutureCall.handler with
    | none => simp [hh, posting] at hcall
    | some handler =>
      cases hv : cs.findSome? FutureCall.value with
      | none => simp [hh, hv, posting] at hcall
      | some value =>
        simp only [hh, hv, posting, List.mem_singleton] at hcall
        subst hcall
        exact ⟨rfl, rfl⟩
  · intro earlier c later _
    have hthrown := ((holds_performAll earlier).perform c).2
    constructor
    · intro h
      obtain ⟨text, htext⟩ := refusal_of_further h
      rw [htext] at hthrown
      exact ⟨perform_fst_of_thrown hthrown, text, hthrown⟩
    · intro h
      exact hthrown.trans (refusal_of_not_further h)

end ResponseFutureData

end MpRpc
