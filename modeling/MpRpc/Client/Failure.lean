import MpRpc.Client.Pending

/-!
# Failure — a failed connection

A failure of the connection is to reach every pending request once: a read
error completes all of them, a write error its own request, and neither
callback throws. The code keeps this in a run exactly if no step of it meets an
entry of a completed request. A request that is registered after the read loop
has ended hears of nothing.
-/

namespace MpRpc.Client

open ResponseFutureData Msgpack

variable {H : Type*} {s t : Client H} {m : Msgid}

/-- What the step must do for a failure to reach every pending request once: no
exception leaves a callback, a completed request keeps its completion, and a
read error completes every pending request with that error. -/
def FailureReported (s : Client H) (e : Event H) : Prop :=
  ∀ t, s.step e = some t → t.thrown = s.thrown ∧
    (∀ r v, s.completion r = some v → t.completion r = some v) ∧
    ∀ error data order, e = .readDone error data order → error.hasError = true →
      ∀ r, s.Pending r → t.completion r = some (error, {})

/-- The step completes only entries of requests that are not completed yet, and
what it reads does not end early. -/
def MeetsNoAnswered (s : Client H) : Event H → Prop
  | .writeDone i error =>
      error.hasError = true → ∀ w m, s.writes[i]? = some w → w.msgid = some m → ¬ s.Answered m
  | .readDone error data _ =>
      if error.hasError then ∀ m, ¬ s.Answered m
      else
        (∀ msg, IsResponse data msg → ¬ s.Answered msg.msgid) ∧
          (Violation data → ∀ m, ¬ s.Answered m) ∧
          Message.ofData data ≠ .error .insufficientBytes
  | .readAgain _ => ∀ m, ¬ s.Answered m
  | _ => True

/-- A walk throws exactly if it meets a completed entry. -/
theorem Inv.broadcast_quiet_iff (h : s.Inv) (error : ErrorInfo) {order : List Msgid}
    (ho : order.Perm s.requests.keys) :
    (s.broadcast error order).2 = none ↔ ∀ m, ¬ s.Answered m := by
  obtain ⟨done, -, -, ⟨hnone, -, hno⟩ | ⟨hex, m, hm⟩⟩ := h.broadcast error ho
  · exact iff_of_true hnone hno
  · exact iff_of_false (by simp [hex]) fun hno => hno m hm

/-- `on_read` throws exactly if the condition fails. -/
theorem Inv.onRead_quiet_iff (h : s.Inv) (error : ErrorInfo) (data : MessageData)
    {order : List Msgid} (ho : order.Perm s.requests.keys) :
    (s.onRead error data order).2 = none ↔ MeetsNoAnswered s (.readDone error data order) := by
  simp only [MeetsNoAnswered]
  cases he : error.hasError with
  | true => rw [onRead_error he, h.broadcast_quiet_iff error ho, if_pos rfl]
  | false =>
    rw [if_neg Bool.false_ne_true]
    rcases data_cases data with ⟨msg, hd⟩ | hd | hd
    · have hok : Message.ofData data ≠ .error .insufficientBytes := by simp [hd.1]
      have hcond : ((∀ msg, IsResponse data msg → ¬ s.Answered msg.msgid) ∧
          (Violation data → ∀ m, ¬ s.Answered m) ∧
          Message.ofData data ≠ .error .insufficientBytes) ↔ ¬ s.Answered msg.msgid := by
        refine ⟨fun hc => hc.1 msg hd, fun hm =>
          ⟨fun msg' hd' => ?_, fun hv => absurd hv hd.not_violation, hok⟩⟩
        rwa [hd.unique hd']
      rw [hcond]
      by_cases hm : s.Answered msg.msgid
      · rw [onRead_answered he hd hm]
        refine iff_of_false (fun hnone => ?_) (not_not.mpr hm)
        exact (h.doRead.broadcast_quiet_iff error ho).mp hnone _ hm
      · refine iff_of_true ?_ hm
        cases hlook : s.requests.lookup msg.msgid with
        | none => rw [onRead_unknown he hd hlook]
        | some r =>
          have hp : s.completion r = none := by
            by_contra hc
            exact hm ⟨r, hlook, hc⟩
          exact (h.onRead_pending he hd hlook hp order).2
    · have hok : Message.ofData data ≠ .error .insufficientBytes := by
        intro htr
        exact (truncated_cases htr).2 hd
      rw [onRead_violation he hd, h.doRead.broadcast_quiet_iff error ho]
      refine ⟨fun hno => ⟨fun msg hd' => absurd hd hd'.not_violation, fun _ => hno, hok⟩,
        fun hc => hc.2.1 hd⟩
    · rw [onRead_truncated he hd]
      exact iff_of_false (by simp) fun hc => hc.2.2 hd

theorem thrown_escape_iff {out : Client H × Option StdException} :
    (escape out).thrown = out.1.thrown ↔ out.2 = none := by
  obtain ⟨s, _ | ex⟩ := out <;> simp [escape]

theorem thrown_escapeToTransport_iff {out : Client H × Option StdException} :
    (escapeToTransport out).thrown = out.1.thrown ↔ out.2 = none := by
  obtain ⟨s, _ | ex⟩ := out
  · simp [escapeToTransport, escape]
  · cases ex <;> simp [escapeToTransport, escape]

theorem Inv.onRead_thrown (h : s.Inv) (error : ErrorInfo) (data : MessageData)
    {order : List Msgid} (ho : order.Perm s.requests.keys) :
    (s.onRead error data order).1.thrown = s.thrown := by
  obtain ⟨v, done, base, hbase, hset, -⟩ := h.onRead error data ho
  rw [hset.thrown]
  rcases hbase with rfl | rfl <;> rfl

/-- A walk that throws nothing completes every pending request. -/
theorem Inv.broadcast_completes (h : s.Inv) {error : ErrorInfo} {order : List Msgid}
    (ho : order.Perm s.requests.keys) (hnone : (s.broadcast error order).2 = none) {r : Nat}
    (hr : s.Pending r) : (s.broadcast error order).1.completion r = some (error, {}) := by
  obtain ⟨done, hs, -, ⟨-, hall, -⟩ | ⟨hex, -⟩⟩ := h.broadcast error ho
  · obtain ⟨⟨m, hm⟩, hp⟩ := hr
    exact (hs.settled r (hall m r (h.pending m r hm hp))).2
  · simp [hex] at hnone

/-! Each kind of step reports the failure under its condition, and only then. -/

theorem failureReported_quiet {e : Event H} (h : s.Inv) (he : s.step e = some t)
    (hq : Quiet s e) : FailureReported s e ↔ MeetsNoAnswered s e := by
  simp only [FailureReported, he, Option.some.injEq, forall_eq']
  refine iff_of_true ⟨(h.quiet_step hq he).1, (h.step he).2.completion, ?_⟩ ?_
  · intro error data order heq
    subst heq
    exact hq.elim
  · cases e with
    | writeDone i error =>
      intro herror w m hw hm
      simp [hq herror w hw] at hm
    | readDone | readAgain => exact hq.elim
    | start | call | fetch | register | setHandler | notify => trivial

theorem failureReported_writeError {i : Nat} {error : ErrorInfo} {w : Write} (h : s.Inv)
    (he : s.step (.writeDone i error) = some t) (herror : error.hasError = true)
    (hw : s.writes[i]? = some w) (hm : w.msgid = some m) :
    FailureReported s (.writeDone i error) ↔ MeetsNoAnswered s (.writeDone i error) := by
  have hmono := (h.step he).2.completion
  simp only [FailureReported, he, Option.some.injEq, forall_eq']
  rw [step_writeError herror hw hm, Option.some.injEq] at he
  obtain ⟨hinv, hfree⟩ := h.eraseWrite hw
  have hcond : MeetsNoAnswered s (.writeDone i error) ↔ ¬ s.Answered m := by
    refine ⟨fun hc => hc herror w m hw hm, fun hno _ w' m' hw' hm' => ?_⟩
    rw [hw, Option.some.injEq] at hw'
    rw [← hw', hm, Option.some.injEq] at hm'
    rwa [← hm']
  rw [hcond]
  simp only [reduceCtorEq, false_imp_iff, implies_true, and_true]
  rw [and_iff_left hmono, ← he]
  rcases hinv.onWriteError_cases m error with ⟨hnone, -⟩ | ⟨ha, heq⟩ | ⟨r, u, hr, hset, heq⟩
  · exact absurd (hfree m hm).2 (AList.lookup_eq_none.mp hnone)
  · rw [heq]
    exact iff_of_false (by simp [escape]) (not_not.mpr ha)
  · rw [heq]
    refine iff_of_true (by rw [escape, hset.frame]) ?_
    intro hex
    obtain ⟨r', hr', hc⟩ := hex
    rw [hr', Option.some.injEq] at hr
    exact hc (hr ▸ (hset.settled r (by simp)).1)

theorem failureReported_readDone {error : ErrorInfo} {data : MessageData} {order : List Msgid}
    (h : s.Inv) (he : s.step (.readDone error data order) = some t) :
    FailureReported s (.readDone error data order) ↔
      MeetsNoAnswered s (.readDone error data order) := by
  have hmono := (h.step he).2.completion
  simp only [FailureReported, he, Option.some.injEq, forall_eq']
  obtain ⟨ho, base, hbase, hte⟩ := step_readDone he
  have hu : base.Inv := hbase ▸ h.transport _ _ _
  have hiff : (base.onRead error data order).2 = none ↔
      MeetsNoAnswered s (.readDone error data order) := by
    subst hbase
    exact hu.onRead_quiet_iff error data ho
  have hthrown : t.thrown = s.thrown ↔ (base.onRead error data order).2 = none := by
    have hbt : (base.onRead error data order).1.thrown = s.thrown := by
      subst hbase
      exact hu.onRead_thrown error data ho
    rw [hte, ← hbt]
    split
    · exact thrown_escape_iff
    · exact thrown_escapeToTransport_iff
  rw [← hiff, ← hthrown]
  refine ⟨fun hc => hc.1, fun hq => ⟨hq, hmono, ?_⟩⟩
  -- a walk that throws nothing has met every pending request
  intro error' data' order' heq herror r hr
  cases heq
  rw [hthrown, onRead_error herror] at hq
  rw [hte, if_pos herror, onRead_error herror]
  obtain ⟨thrown, hesc⟩ := escape_eq (base.broadcast error order)
  rw [hesc]
  subst hbase
  exact hu.broadcast_completes ho hq hr

theorem failureReported_readAgain {order : List Msgid} (hs : (machine H).Reachable s)
    (he : s.step (.readAgain order) = some t) :
    FailureReported s (.readAgain order) ↔ MeetsNoAnswered s (.readAgain order) := by
  have h := inv_of_reachable hs
  have hmono := (h.step he).2.completion
  simp only [FailureReported, he, Option.some.injEq, forall_eq']
  obtain ⟨ho, info, caught, base, hcaught, hbase, hte⟩ := step_readAgain he
  have hu : base.Inv := hbase ▸ h.transport _ _ _
  have hou : order.Perm base.requests.keys := by rwa [hbase]
  have hbt : base.thrown = s.thrown := by rw [hbase]
  have herror := caught_hasError hs info (by simp [hcaught])
  simp only [reduceCtorEq, false_imp_iff, implies_true, and_true]
  rw [and_iff_left hmono, hte, ← hbt, ← hu.onRead_thrown info [] hou, thrown_escape_iff,
    onRead_error herror, hu.broadcast_quiet_iff info hou, hbase]
  exact Iff.rfl

theorem failureReported_iff {e : Event H} (hs : (machine H).Reachable s)
    (he : s.step e = some t) : FailureReported s e ↔ MeetsNoAnswered s e := by
  have h := inv_of_reachable hs
  rcases quiet_or_busy s e with hq | ⟨i, error, w, m, rfl, herror, hw, hm⟩ |
    ⟨error, data, order, rfl⟩ | ⟨order, rfl⟩
  · exact failureReported_quiet h he hq
  · exact failureReported_writeError h he herror hw hm
  · exact failureReported_readDone h he
  · exact failureReported_readAgain hs he

/-- **A failed connection reaches everybody once** in a run exactly if no step of
the run meets an entry of a completed request. -/
theorem failureReported_iff_meetsNoAnswered {es : List (Event H)}
    (hr : (machine H).run {} es = some t) :
    (machine H).EachStep FailureReported {} es ↔ (machine H).EachStep MeetsNoAnswered {} es :=
  Machine.eachStep_congr (J := (machine H).Reachable) (fun _ _ _ hs he => hs.step he)
    (fun _ _ _ hs he => failureReported_iff hs he) .init hr

theorem failureReported_iff_meetsNoAnswered_twoCalls :
    (machine Unit).EachStep FailureReported {} twoCalls ↔
      (machine Unit).EachStep MeetsNoAnswered {} twoCalls :=
  failureReported_iff_meetsNoAnswered rfl

/-- Request 0 is answered, then the connection ends: the walk meets the entry of
request 0 first, throws, and request 1 is never completed. -/
theorem readError_after_response_throws :
    ∃ s t, (machine Unit).run {} firstAnswered = some s ∧ s.Pending 1 ∧
      s.step (.readDone (.of .eof "") [] [0, 1]) = some t ∧
      t.thrown = [.exception alreadyCompleted] ∧ t.completion 1 = none ∧
      ¬ FailureReported s (.readDone (.of .eof "") [] [0, 1]) := by
  have hno : ∀ s t : Client Unit, s.step (.readDone (.of .eof "") [] [0, 1]) = some t →
      s.thrown = [] → t.thrown = [.exception alreadyCompleted] →
      ¬ FailureReported s (.readDone (.of .eof "") [] [0, 1]) := by
    intro s t he hs ht hrep
    have hsame := (hrep t he).1
    rw [hs, ht] at hsame
    cases hsame
  exact ⟨_, _, rfl, ⟨⟨1, rfl⟩, rfl⟩, rfl, rfl, rfl, hno _ _ rfl rfl rfl⟩

/-! ## Requests left waiting -/

/-- A read error was delivered and no read is outstanding. -/
def ReadLoopEnded (s : Client H) : Prop := s.readFailed = true ∧ s.reads = 0

/-- `async_request` registers a request as usual when the read loop has ended,
and nobody will complete it. -/
theorem request_after_readLoop_waits :
    ¬ ∀ s : Client Unit, (machine Unit).Reachable s → s.ReadLoopEnded → ∀ r, ¬ s.Pending r := by
  intro hall
  have hno : ∀ s : Client Unit, (machine Unit).run {} [.start,
      .readDone (.of .eof "") [] [], .call (ascii "echo") [], .register 0] = some s →
      s.ReadLoopEnded → ¬ s.Pending 0 :=
    fun s hs hend => hall s ⟨_, hs⟩ hend 0
  exact hno _ rfl ⟨rfl, rfl⟩ ⟨⟨0, rfl⟩, rfl⟩

/-- **No request is left behind by the error**: when a read error is processed
and no entry is of a completed request, then in every state after it a request
that is still waiting was registered later. -/
theorem waiting_registered_after_readError {s₁ s₂ s₃ : Client H} {error : ErrorInfo}
    {data : MessageData} {order : List Msgid} {es : List (Event H)}
    (hs : (machine H).Reachable s₁) (hno : ∀ m, ¬ s₁.Answered m) (herror : error.hasError = true)
    (he : s₁.step (.readDone error data order) = some s₂)
    (hr : (machine H).run s₂ es = some s₃) (r : Nat) (hp : s₃.Pending r) : s₁.idOf r = none := by
  have h := inv_of_reachable hs
  have hrep : FailureReported s₁ (.readDone error data order) :=
    (failureReported_iff hs he).mpr (by simpa [MeetsNoAnswered, herror] using hno)
  obtain ⟨-, hmono, hall⟩ := hrep s₂ he
  have hlater := ((h.step he).1.run hr).2.completion
  by_contra hid
  obtain ⟨m, hm⟩ := Option.ne_none_iff_exists'.mp hid
  have hdone : ∃ v, s₂.completion r = some v := by
    cases hc : s₁.completion r with
    | none => exact ⟨_, hall error data order rfl herror r ⟨⟨m, hm⟩, hc⟩⟩
    | some v => exact ⟨v, hmono r v hc⟩
  obtain ⟨v, hv⟩ := hdone
  have hv₃ := hlater r v hv
  simp [hp.2] at hv₃

theorem waiting_registered_after_readError_twoCalls :
    ∃ s₁ s₂ s₃, (machine Unit).run {} twoCalls = some s₁ ∧
      s₁.step (.readDone (.of .eof "") [] [0, 1]) = some s₂ ∧
      (machine Unit).run s₂ [.call (ascii "echo") [], .register 2] = some s₃ ∧
      s₃.Pending 2 ∧ s₁.idOf 2 = none := by
  have hno : ∀ s₁ : Client Unit, (machine Unit).run {} twoCalls = some s₁ →
      ∀ m, ¬ s₁.Answered m := by
    intro s₁ hs m hex
    obtain ⟨r, -, hc⟩ := hex
    cases hs
    match r with
    | 0 | 1 | _ + 2 => exact hc rfl
  have hlate : ∀ s₁ s₂ s₃ : Client Unit, (machine Unit).run {} twoCalls = some s₁ →
      s₁.step (.readDone (.of .eof "") [] [0, 1]) = some s₂ →
      (machine Unit).run s₂ [.call (ascii "echo") [], .register 2] = some s₃ →
      s₃.Pending 2 → s₁.idOf 2 = none := fun s₁ _ _ h₁ h₂ h₃ =>
    waiting_registered_after_readError ⟨twoCalls, h₁⟩ (hno s₁ h₁) rfl h₂ h₃ 2
  exact ⟨_, _, _, rfl, rfl, rfl, ⟨⟨2, rfl⟩, rfl⟩, hlate _ _ _ rfl rfl rfl ⟨⟨2, rfl⟩, rfl⟩⟩

end MpRpc.Client
