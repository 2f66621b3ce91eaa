import MpRpc.Client.Invariant

/-!
# Reading — one received message

What a single `on_read` does to the requests, in any reachable state. The
entry of an answered request stays in `requests_`, so a second response for it
makes `set_response` throw, and the `catch` clause then walks over all the
other requests with its argument `error`, which is "no error".
-/

namespace MpRpc.Client

open ResponseFutureData Msgpack

variable {H : Type*} {s : Client H} {data : MessageData} {msg : Message} {order : List Msgid}

/-! ## Isolation of responses -/

/-- The requests under other ids than `m` are as they were, and no exception
left `on_read`. -/
def Isolated (s : Client H) (m : Msgid) (out : Client H × Option StdException) : Prop :=
  (∀ r, s.idOf r ≠ some m → out.1.completion r = s.completion r) ∧ out.2 = none

/-- A response for a request that is not registered, or registered and pending,
touches no other request. -/
theorem Inv.isolated (h : s.Inv) (hd : IsResponse data msg) (hm : ¬ s.Answered msg.msgid) :
    Isolated s msg.msgid (s.onRead {} data order) := by
  cases hlook : s.requests.lookup msg.msgid with
  | none =>
    rw [onRead_unknown rfl hd hlook]
    exact ⟨fun _ _ => rfl, rfl⟩
  | some r =>
    have hp : s.completion r = none := by
      by_contra hc
      exact hm ⟨r, hlook, hc⟩
    obtain ⟨hs, hnone⟩ := h.onRead_pending ErrorInfo.hasError_default hd hlook hp order
    refine ⟨fun r' hr' => ?_, hnone⟩
    have hne : r' ≠ r := fun heq => hr' (heq ▸ h.entry _ r hlook)
    exact hs.completion_of_notMem (by simpa using hne)

/-- **Isolation of responses** holds exactly for the responses whose request has
not been completed. -/
theorem response_isolated_iff (hs : (machine H).Reachable s) (hd : IsResponse data msg)
    (ho : order.Perm s.requests.keys) :
    Isolated s msg.msgid (s.onRead {} data order) ↔ ¬ s.Answered msg.msgid := by
  have h := inv_of_reachable hs
  refine ⟨fun hiso hm => ?_, h.isolated hd⟩
  -- the repeated response ends in the walk, which throws at the answered entry
  rw [onRead_answered rfl hd hm] at hiso
  obtain ⟨_, -, -, hout⟩ := h.doRead.broadcast {} ho
  rcases hout with ⟨-, -, hnone⟩ | ⟨hex, -⟩
  · exact hnone _ hm
  · simp [hiso.2] at hex

/-- Two calls, both registered. -/
def twoCalls : List (Event Unit) :=
  [.start, .call (ascii "echo") [], .register 0, .call (ascii "echo") [], .register 1]

/-- The same, and a response for the first. -/
def firstAnswered : List (Event Unit) :=
  twoCalls ++ [.readDone {} (packResponse 0 .nil) [0, 1]]

theorem isResponse_packResponse (id : Msgid) :
    IsResponse (packResponse id .nil) (Message.response id .nil .nil) :=
  ⟨ofData_packedResponse id (by decide) (by decide), rfl⟩

theorem response_isolated_iff_twoCalls :
    ∃ s, (machine Unit).run {} twoCalls = some s ∧
      (Isolated s 0 (s.onRead {} (packResponse 0 .nil) [0, 1]) ↔ ¬ s.Answered 0) :=
  ⟨_, rfl, response_isolated_iff ⟨twoCalls, rfl⟩ (isResponse_packResponse 0) (by decide)⟩

/-- A repeated response for request 0 completes request 1, without an error and
with an empty message, and throws. -/
theorem repeated_response_not_isolated :
    ∃ s, (machine Unit).run {} firstAnswered = some s ∧
      IsResponse (packResponse 0 .nil) (Message.response 0 .nil .nil) ∧
      [1, 0].Perm s.requests.keys ∧ s.idOf 1 = some 1 ∧ s.completion 1 = none ∧
      (s.onRead {} (packResponse 0 .nil) [1, 0]).1.completion 1 = some ({}, {}) ∧
      (s.onRead {} (packResponse 0 .nil) [1, 0]).2 = some (.exception alreadyCompleted) ∧
      ¬ Isolated s 0 (s.onRead {} (packResponse 0 .nil) [1, 0]) := by
  refine ⟨_, rfl, isResponse_packResponse 0, by decide, rfl, rfl, rfl, rfl, ?_⟩
  intro hand
  obtain ⟨-, hnone⟩ := hand
  cases hnone

/-! ## Protocol violations -/

/-- Every pending request is completed through the failure branch. -/
def FailsPending (s t : Client H) : Prop :=
  ∀ r, s.Pending r → ∃ error msg, t.completion r = some (error, msg) ∧
    error.hasError = true ∧ thenHandler error msg = .onFailure error

/-- **A protocol violation** fails the pending requests only if there are none:
the walk of the `catch` clause completes requests without an error, or stops. -/
theorem violation_fails_pending_iff (hs : (machine H).Reachable s) (hd : Violation data)
    (ho : order.Perm s.requests.keys) :
    FailsPending s (s.onRead {} data order).1 ↔ ∀ r, ¬ s.Pending r := by
  have h := inv_of_reachable hs
  refine ⟨fun hfail r hr => ?_, fun hnone r hr => absurd hr (hnone r)⟩
  obtain ⟨error, msg, hv, herror, -⟩ := hfail r hr
  rw [onRead_violation rfl hd] at hv
  obtain ⟨done, hset, -, -⟩ := h.doRead.broadcast {} ho
  by_cases hmem : r ∈ done
  · rw [(hset.settled r hmem).2, Option.some.injEq, Prod.mk.injEq] at hv
    rw [← hv.1] at herror
    cases herror
  · rw [hset.completion_of_notMem hmem] at hv
    have hp : s.doRead.completion r = none := hr.2
    simp [hp] at hv

theorem violation_packNotification :
    Violation (packNotification (ascii "hello") []) := by
  refine .inr ⟨_, rfl, by decide⟩

theorem violation_fails_pending_iff_twoCalls :
    ∃ s, (machine Unit).run {} twoCalls = some s ∧
      (FailsPending s (s.onRead {} (packNotification (ascii "hello") []) [0, 1]).1 ↔
        ∀ r, ¬ s.Pending r) :=
  ⟨_, rfl, violation_fails_pending_iff ⟨twoCalls, rfl⟩ violation_packNotification (by decide)⟩

/-- A notification sent to the client completes request 0 through `on_success`
with an empty message. -/
theorem violation_completes_without_error :
    ∃ s, (machine Unit).run {} twoCalls = some s ∧ s.Pending 0 ∧ [0, 1].Perm s.requests.keys ∧
      Violation (packNotification (ascii "hello") []) ∧
      (s.onRead {} (packNotification (ascii "hello") []) [0, 1]).1.completion 0 = some ({}, {}) ∧
      thenHandler {} {} = .onSuccess {} ∧
      ¬ FailsPending s (s.onRead {} (packNotification (ascii "hello") []) [0, 1]).1 := by
  have hpending : ∀ s, (machine Unit).run {} twoCalls = some s → s.Pending 0 := by
    intro s hs
    cases hs
    exact ⟨⟨0, rfl⟩, rfl⟩
  refine ⟨_, rfl, hpending _ rfl, by decide, violation_packNotification, rfl, rfl, ?_⟩
  intro hfail
  obtain ⟨error, msg, hv, herror, -⟩ := hfail 0 (hpending _ rfl)
  cases hv
  cases herror

end MpRpc.Client
