import MpRpc.Client.Reading

/-!
# Pending — the keys of `requests_`

Over any interleaving of calls, write completions and read completions, the
keys of `requests_` are to be the pending requests. A step is quiet, reports a
failed write or delivers a read; only a read can complete an entry without
erasing it, and a run keeps the keys right exactly if none of its reads does.
-/

namespace MpRpc.Client

open ResponseFutureData Msgpack

variable {H : Type*} {s t : Client H} {m : Msgid}

/-- The keys of `requests_` are the msgids of the pending requests. -/
def KeysArePending (s : Client H) : Prop :=
  ∀ m, m ∈ s.requests ↔ ∃ r, s.idOf r = some m ∧ s.completion r = none

/-- Pending requests always have their entry, so the keys are right exactly if
no entry is of a completed request. -/
theorem Inv.keysArePending_iff (h : s.Inv) : s.KeysArePending ↔ ∀ m, ¬ s.Answered m := by
  constructor
  · intro hkeys m hex
    obtain ⟨r, hm, hc⟩ := hex
    obtain ⟨r', hid, hp⟩ := (hkeys m).mp (AList.lookup_isSome.mp (by simp [hm]))
    have hm' := h.pending m r' hid hp
    rw [hm, Option.some.injEq] at hm'
    exact hc (hm' ▸ hp)
  · intro hnone m
    constructor
    · intro hm
      obtain ⟨r, hr⟩ := Option.isSome_iff_exists.mp (AList.lookup_isSome.mpr hm)
      refine ⟨r, h.entry m r hr, ?_⟩
      by_contra hc
      exact hnone m ⟨r, hr, hc⟩
    · intro hex
      obtain ⟨r, hid, hp⟩ := hex
      exact AList.lookup_isSome.mp (by simp [h.pending m r hid hp])

/-- Entries that are completed stay. -/
theorem SettledBy.answered_iff {v : ErrorInfo × Message} {done : List Nat}
    (hs : SettledBy v done s t) :
    t.Answered m ↔ s.Answered m ∨ ∃ r ∈ done, s.requests.lookup m = some r := by
  unfold Answered
  rw [hs.requests]
  constructor
  · intro hex
    obtain ⟨r, hm, hc⟩ := hex
    by_cases hr : r ∈ done
    · exact .inr ⟨r, hr, hm⟩
    · exact .inl ⟨r, hm, hs.completion_of_notMem hr ▸ hc⟩
  · intro hor
    rcases hor with ⟨r, hm, hc⟩ | ⟨r, hr, hm⟩
    · obtain ⟨w, hw⟩ := Option.ne_none_iff_exists'.mp hc
      exact ⟨r, hm, by simp [hs.completion_mono hw]⟩
    · exact ⟨r, hm, by simp [(hs.settled r hr).2]⟩

theorem answered_escape {out : Client H × Option StdException} :
    (escape out).Answered m ↔ out.1.Answered m := by
  obtain ⟨thrown, heq⟩ := escape_eq out
  rw [heq]
  exact Iff.rfl

theorem answered_escapeToTransport {out : Client H × Option StdException} :
    (escapeToTransport out).Answered m ↔ out.1.Answered m := by
  obtain ⟨thrown, caught, heq⟩ := escapeToTransport_eq out
  rw [heq]
  exact Iff.rfl

/-- The step neither delivers a read nor reports a failed write of a request. -/
def Quiet (s : Client H) : Event H → Prop
  | .writeDone i error =>
      error.hasError = true → ∀ w, s.writes[i]? = some w → w.msgid = none
  | .readDone .. => False
  | .readAgain .. => False
  | _ => True

theorem answered_setPhase {r : Nat} {p : CallPhase} :
    (s.setPhase r p).Answered m ↔ s.Answered m := by
  simp only [Answered, completion, future_setPhase]
  exact Iff.rfl

/-- Quiet steps throw nothing and complete nothing. -/
theorem Inv.quiet_step {e : Event H} (h : s.Inv) (hq : Quiet s e) (he : s.step e = some t) :
    t.thrown = s.thrown ∧ t.caught = s.caught ∧ ∀ m, t.Answered m → s.Answered m := by
  cases e with
  | start =>
    cases he
    exact ⟨rfl, rfl, fun _ => id⟩
  | call method params =>
    cases he
    refine ⟨rfl, rfl, ?_⟩
    intro m ha
    obtain ⟨r, hm, hc⟩ := ha
    rw [completion, future_addCall _ rfl] at hc
    exact ⟨r, hm, hc⟩
  | fetch r =>
    obtain ⟨-, rfl⟩ := step_fetch he
    exact ⟨rfl, rfl, fun m hm => answered_setPhase.mp hm⟩
  | register r =>
    obtain ⟨c, candidate, -, hr, rfl | ⟨-, rfl⟩⟩ := step_register he
    · exact ⟨rfl, rfl, fun m hm => answered_setPhase.mp hm⟩
    · refine ⟨rfl, rfl, ?_⟩
      intro m ha
      obtain ⟨r', hm, hc⟩ := ha
      rw [completion, future_enroll] at hc
      change (s.requests.insert candidate r).lookup m = some r' at hm
      by_cases heq : m = candidate
      · -- the new entry is of a call that nobody could complete yet
        rw [heq, AList.lookup_insert, Option.some.injEq] at hm
        exact absurd (h.fresh r (by simp only [idOf, hr])) (hm ▸ hc)
      · rw [AList.lookup_insert_ne heq] at hm
        exact ⟨r', hm, hc⟩
  | setHandler r handler =>
    obtain ⟨m, hr, rfl | ⟨d, hd, rfl⟩⟩ := step_setHandler he
    · exact ⟨rfl, rfl, fun _ => id⟩
    · refine ⟨rfl, rfl, ?_⟩
      intro m' ha
      obtain ⟨r', hm, hc⟩ := ha
      rw [completion_setHandler (h.wf r) hr hd] at hc
      exact ⟨r', hm, hc⟩
  | notify method params =>
    cases he
    exact ⟨rfl, rfl, fun _ => id⟩
  | writeDone i error =>
    obtain ⟨w, base, hw, rfl, rfl | ⟨m, hm, herror, -⟩⟩ := step_writeDone he
    · exact ⟨rfl, rfl, fun _ => id⟩
    · rw [hq herror w hw] at hm
      cases hm
  | readDone error data order => exact hq.elim
  | readAgain order => exact hq.elim

/-- A failing write never leaves a completed entry that was not there: it erases
the entry it completes. -/
theorem Inv.writeError_answered (h : s.Inv) {error : ErrorInfo} {m' : Msgid}
    (ha : (s.onWriteError m error).1.Answered m') : s.Answered m' := by
  rcases h.onWriteError_cases m error with ⟨-, heq⟩ | ⟨-, heq⟩ | ⟨r, t, hr, hs, heq⟩
  · rwa [heq] at ha
  · rwa [heq] at ha
  · rw [heq] at ha
    obtain ⟨r', hm', hc⟩ := ha
    change (t.requests.erase m).lookup m' = some r' at hm'
    have hne : m' ≠ m := by
      intro heq
      subst heq
      simp [AList.lookup_erase] at hm'
    rw [AList.lookup_erase_ne hne] at hm'
    rcases hs.answered_iff.mp ⟨r', hm', hc⟩ with ha | ⟨r'', hr'', hm''⟩
    · exact ha
    · have hr'' : r'' = r := by simpa using hr''
      have hid := h.entry m' r'' hm''
      rw [hr'', h.entry m r hr, Option.some.injEq] at hid
      exact absurd hid.symm hne

/-- A walk over `requests_` leaves no completed entry only if it met none. -/
theorem Inv.broadcast_answered (h : s.Inv) (hnone : ∀ m, ¬ s.Answered m) (error : ErrorInfo)
    {order : List Msgid} (ho : order.Perm s.requests.keys) :
    (∀ m, ¬ (s.broadcast error order).1.Answered m) ↔ ∀ m, m ∉ s.requests := by
  obtain ⟨done, hs, hdone, hout⟩ := h.broadcast error ho
  rcases hout with ⟨-, hall, -⟩ | ⟨-, m, hm⟩
  · simp only [hs.answered_iff, hnone, false_or]
    constructor
    · intro hno m hm
      obtain ⟨r, hr⟩ := Option.isSome_iff_exists.mp (AList.lookup_isSome.mpr hm)
      exact hno m ⟨r, hall m r hr, hr⟩
    · intro hempty m hex
      obtain ⟨r, -, hr⟩ := hex
      exact hempty m (AList.lookup_isSome.mp (by simp [hr]))
  · exact absurd hm (hnone m)

/-- The read that the step delivers, if it delivers one, completes no request
that has an entry. -/
def CompletesNoEntry (s : Client H) : Event H → Prop
  | .readDone error data _ =>
      if error.hasError then ∀ m, m ∉ s.requests
      else
        (∀ msg, IsResponse data msg → msg.msgid ∉ s.requests) ∧
          (Violation data → ∀ m, m ∉ s.requests)
  | .readAgain _ => ∀ m, m ∉ s.requests
  | _ => True

theorem IsResponse.unique {data : MessageData} {msg msg' : Message} (h : IsResponse data msg)
    (h' : IsResponse data msg') : msg' = msg := by
  have heq := h'.1.symm.trans h.1
  exact Except.ok.inj heq

theorem IsResponse.not_violation {data : MessageData} {msg : Message} (h : IsResponse data msg) :
    ¬ Violation data := by
  intro hor
  rcases hor with ⟨info, hd⟩ | ⟨msg', hd, ht⟩
  · cases h.1.symm.trans hd
  · cases h.1.symm.trans hd
    exact ht h.2

theorem not_isResponse_of_violation {data : MessageData} (h : Violation data) (msg : Message) :
    ¬ IsResponse data msg :=
  fun hd => hd.not_violation h

/-- Bytes that end early are neither a response nor a violation. -/
theorem truncated_cases {data : MessageData}
    (hd : Message.ofData data = .error .insufficientBytes) :
    (∀ msg, ¬ IsResponse data msg) ∧ ¬ Violation data := by
  refine ⟨fun msg h => ?_, ?_⟩
  · cases hd.symm.trans h.1
  · intro hor
    rcases hor with ⟨info, h⟩ | ⟨msg, h, -⟩
    · cases hd.symm.trans h
    · cases hd.symm.trans h

/-- `on_read` leaves no completed entry exactly under the condition. -/
theorem Inv.onRead_answered_iff (h : s.Inv) (hnone : ∀ m, ¬ s.Answered m) (error : ErrorInfo)
    (data : MessageData) {order : List Msgid} (ho : order.Perm s.requests.keys) :
    (∀ m, ¬ (s.onRead error data order).1.Answered m) ↔
      CompletesNoEntry s (.readDone error data order) := by
  simp only [CompletesNoEntry]
  cases he : error.hasError with
  | true =>
    rw [onRead_error he, h.broadcast_answered hnone error ho, if_pos rfl]
  | false =>
    rw [if_neg Bool.false_ne_true]
    rcases data_cases data with ⟨msg, hd⟩ | hd | hd
    · have hcond : ((∀ msg, IsResponse data msg → msg.msgid ∉ s.requests) ∧
          (Violation data → ∀ m, m ∉ s.requests)) ↔ msg.msgid ∉ s.requests := by
        refine ⟨fun hc => hc.1 msg hd, fun hm => ⟨?_, fun hv => absurd hv hd.not_violation⟩⟩
        intro msg' hd'
        rwa [hd.unique hd']
      rw [hcond]
      cases hm : s.requests.lookup msg.msgid with
      | none =>
        rw [onRead_unknown he hd hm]
        exact iff_of_true hnone (AList.lookup_eq_none.mp hm)
      | some r =>
        have hp : s.completion r = none := by
          by_contra hc
          exact hnone _ ⟨r, hm, hc⟩
        obtain ⟨hs, -⟩ := h.onRead_pending he hd hm hp order
        have hkey : msg.msgid ∈ s.requests := AList.lookup_isSome.mp (by simp [hm])
        refine iff_of_false (fun hno => hno msg.msgid ?_) (not_not.mpr hkey)
        exact hs.answered_iff.mpr (.inr ⟨r, by simp, hm⟩)
    · rw [onRead_violation he hd, h.doRead.broadcast_answered hnone error ho]
      simp only [not_isResponse_of_violation hd, hd, false_imp_iff, forall_true_left,
        implies_true, true_and]
      exact Iff.rfl
    · rw [onRead_truncated he hd]
      obtain ⟨hresp, hviol⟩ := truncated_cases hd
      exact iff_of_true hnone ⟨fun msg hd => absurd hd (hresp msg), fun hd => absurd hd hviol⟩

/-- What can leave `on_read`. -/
theorem Inv.onRead_throws (h : s.Inv) (error : ErrorInfo) (data : MessageData)
    {order : List Msgid} (ho : order.Perm s.requests.keys) {ex : StdException}
    (hex : (s.onRead error data order).2 = some ex) :
    ex = .exception alreadyCompleted ∨ ex = .insufficientBytes := by
  have hwalk : ∀ u : Client H, u.Inv → order.Perm u.requests.keys →
      (u.broadcast error order).2 = some ex → ex = .exception alreadyCompleted := by
    intro u hu hou hb
    obtain ⟨_, -, -, ⟨hnone, -, -⟩ | ⟨hsome, -⟩⟩ := hu.broadcast error hou
    · simp [hnone] at hb
    · rw [hsome, Option.some.injEq] at hb
      exact hb.symm
  cases he : error.hasError with
  | true =>
    rw [onRead_error he] at hex
    exact .inl (hwalk s h ho hex)
  | false =>
    rcases data_cases data with ⟨msg, hd⟩ | hd | hd
    · cases hm : s.requests.lookup msg.msgid with
      | none => simp [onRead_unknown he hd hm] at hex
      | some r =>
        by_cases hp : s.completion r = none
        · simp [(h.onRead_pending he hd hm hp order).2] at hex
        · rw [onRead_answered he hd ⟨r, hm, hp⟩] at hex
          exact .inl (hwalk s.doRead h.doRead ho hex)
    · rw [onRead_violation he hd] at hex
      exact .inl (hwalk s.doRead h.doRead ho hex)
    · rw [onRead_truncated he hd, Option.some.injEq] at hex
      exact .inr hex.symm

theorem step_writeError {i : Nat} {error : ErrorInfo} {w : Write} (he : error.hasError = true)
    (hw : s.writes[i]? = some w) (hm : w.msgid = some m) :
    s.step (.writeDone i error) =
      some (escape (onWriteError { s with writes := s.writes.eraseIdx i } m error)) := by
  simp only [step, hw, hm, he, if_true]

/-- A step is quiet, reports a failed write of a request, or delivers a read. -/
theorem quiet_or_busy (s : Client H) (e : Event H) :
    Quiet s e ∨
      (∃ i error w m, e = .writeDone i error ∧ error.hasError = true ∧
        s.writes[i]? = some w ∧ w.msgid = some m) ∨
      (∃ error data order, e = .readDone error data order) ∨ ∃ order, e = .readAgain order := by
  cases e with
  | writeDone i error =>
    by_cases hq : Quiet s (.writeDone i error)
    · exact .inl hq
    · simp only [Quiet, not_forall] at hq
      obtain ⟨herror, w, hw, hm⟩ := hq
      obtain ⟨m, hm⟩ := Option.ne_none_iff_exists'.mp hm
      exact .inr (.inl ⟨i, error, w, m, rfl, herror, hw, hm⟩)
  | readDone error data order => exact .inr (.inr (.inl ⟨error, data, order, rfl⟩))
  | readAgain order => exact .inr (.inr (.inr ⟨order, rfl⟩))
  | start | call | fetch | register | setHandler | notify => exact .inl trivial

/-- What the transport keeps is not part of the invariant. -/
theorem Inv.transport (h : s.Inv) (reads : Nat) (readFailed : Bool) (caught : List ErrorInfo) :
    Inv { s with reads, readFailed, caught } := h.of_same rfl rfl rfl

theorem Inv.onRead_caught (h : s.Inv) (error : ErrorInfo) (data : MessageData)
    {order : List Msgid} (ho : order.Perm s.requests.keys) :
    (s.onRead error data order).1.caught = s.caught := by
  obtain ⟨v, done, base, hbase, hset, -⟩ := h.onRead error data ho
  rw [hset.frame]
  rcases hbase with rfl | rfl <;> rfl

theorem Inv.onWriteError_caught (h : s.Inv) (error : ErrorInfo) :
    (s.onWriteError m error).1.caught = s.caught := by
  rcases h.onWriteError_cases m error with ⟨-, heq⟩ | ⟨-, heq⟩ | ⟨r, t, -, hs, heq⟩
  · rw [heq]
  · rw [heq]
  · rw [heq, hs.frame]

theorem caught_escape (out : Client H × Option StdException) :
    (escape out).caught = out.1.caught := by
  obtain ⟨s, _ | ex⟩ := out <;> rfl

theorem caught_escapeToTransport {out : Client H × Option StdException} {info : ErrorInfo}
    (hi : info ∈ (escapeToTransport out).caught) :
    info ∈ out.1.caught ∨ out.2 = some (.exception info) := by
  obtain ⟨s, _ | ex⟩ := out
  · exact .inl hi
  · cases ex with
    | exception info' =>
      rcases List.mem_append.mp hi with hi | hi
      · exact .inl hi
      · exact .inr (by rw [List.mem_singleton.mp hi])
    | insufficientBytes | outOfRange | systemError => exact .inl hi

theorem Inv.caught_step {e : Event H} (h : s.Inv) (hc : ∀ info ∈ s.caught, info.hasError = true)
    (he : s.step e = some t) : ∀ info ∈ t.caught, info.hasError = true := by
  rcases quiet_or_busy s e with hq | ⟨i, error, w, m, rfl, herror, hw, hm⟩ |
    ⟨error, data, order, rfl⟩ | ⟨order, rfl⟩
  · rwa [(h.quiet_step hq he).2.1]
  · rw [step_writeError herror hw hm, Option.some.injEq] at he
    rw [← he, caught_escape, (h.eraseWrite hw).1.onWriteError_caught error]
    exact hc
  · obtain ⟨ho, base, hbase, rfl⟩ := step_readDone he
    have hu : base.Inv := hbase ▸ h.transport _ _ _
    have hou : order.Perm base.requests.keys := by rwa [hbase]
    have hcu : (base.onRead error data order).1.caught = s.caught := by
      rw [hu.onRead_caught error data hou, hbase]
    split
    · rwa [caught_escape, hcu]
    · intro info hi
      rcases caught_escapeToTransport hi with hi | hex
      · exact hc info (hcu ▸ hi)
      · rcases hu.onRead_throws error data hou hex with heq | heq
        · cases heq
          rfl
        · cases heq
  · obtain ⟨ho, info, caught, base, hcaught, hbase, rfl⟩ := step_readAgain he
    have hu : base.Inv := hbase ▸ h.transport _ _ _
    have hou : order.Perm base.requests.keys := by rwa [hbase]
    rw [caught_escape, hu.onRead_caught info [] hou, hbase]
    exact fun info' hi => hc info' (hcaught ▸ List.mem_cons_of_mem _ hi)

/-- What the transport catches is an error. -/
theorem caught_hasError (hs : (machine H).Reachable s) :
    ∀ info ∈ s.caught, info.hasError = true := by
  have hinv : s.Inv ∧ ∀ info ∈ s.caught, info.hasError = true :=
    hs.invariant (I := fun s => s.Inv ∧ ∀ info ∈ s.caught, info.hasError = true)
      ⟨inv_init, by simp [machine]⟩
      fun _ _ _ h he => ⟨(h.1.step he).1, h.1.caught_step h.2 he⟩
  exact hinv.2

/-- A step keeps the keys right exactly if it completes no entry. -/
theorem keysArePending_step_iff {e : Event H} (hs : (machine H).Reachable s)
    (hk : s.KeysArePending) (he : s.step e = some t) :
    t.KeysArePending ↔ CompletesNoEntry s e := by
  have h := inv_of_reachable hs
  have hnone := h.keysArePending_iff.mp hk
  rw [(h.step he).1.keysArePending_iff]
  rcases quiet_or_busy s e with hq | ⟨i, error, w, m, rfl, herror, hw, hm⟩ |
    ⟨error, data, order, rfl⟩ | ⟨order, rfl⟩
  · refine iff_of_true (fun m hm => hnone m ((h.quiet_step hq he).2.2 m hm)) ?_
    cases e <;> trivial
  · rw [step_writeError herror hw hm, Option.some.injEq] at he
    subst he
    refine iff_of_true (fun m' hm' => hnone m' ?_) trivial
    exact (h.eraseWrite hw).1.writeError_answered (answered_escape.mp hm')
  · obtain ⟨ho, base, hbase, rfl⟩ := step_readDone he
    have hu : base.Inv := hbase ▸ h.transport _ _ _
    have hiff : (∀ m, ¬ (base.onRead error data order).1.Answered m) ↔
        CompletesNoEntry s (.readDone error data order) := by
      subst hbase
      exact hu.onRead_answered_iff hnone error data ho
    rw [← hiff]
    split
    · simp only [answered_escape]
    · simp only [answered_escapeToTransport]
  · obtain ⟨ho, info, caught, base, hcaught, hbase, rfl⟩ := step_readAgain he
    have hu : base.Inv := hbase ▸ h.transport _ _ _
    have herror := caught_hasError hs info (by simp [hcaught])
    simp only [answered_escape, onRead_error herror]
    subst hbase
    exact hu.broadcast_answered hnone info ho

/-- **The keys of `requests_` are the pending requests** in every state of a run
exactly if no step of the run delivers a read that completes an entry. -/
theorem keysArePending_iff_completesNoEntry {es : List (Event H)}
    (hr : (machine H).run {} es = some t) :
    (machine H).EachState KeysArePending {} es ↔ (machine H).EachStep CompletesNoEntry {} es := by
  have hinit : KeysArePending ({} : Client H) :=
    inv_init.keysArePending_iff.mpr (by simp [Answered])
  exact Machine.eachState_iff_eachStep (J := (machine H).Reachable) (I := KeysArePending)
    (fun _ _ _ hs he => hs.step he) (fun _ _ _ hs hk he => keysArePending_step_iff hs hk he)
    .init hinit hr

theorem keysArePending_iff_completesNoEntry_twoCalls :
    (machine Unit).EachState KeysArePending {} twoCalls ↔
      (machine Unit).EachStep CompletesNoEntry {} twoCalls :=
  keysArePending_iff_completesNoEntry rfl

/-- After its response, request 0 is completed and still has its entry. -/
theorem answered_request_keeps_entry :
    ∃ s, (machine Unit).run {} firstAnswered = some s ∧
      s.requests.lookup 0 = some 0 ∧
      s.completion 0 = some ({}, Message.response 0 .nil .nil) ∧ ¬ s.KeysArePending := by
  have hno : ∀ (s : Client Unit) v, (machine Unit).run {} firstAnswered = some s →
      s.requests.lookup 0 = some 0 → s.completion 0 = some v → ¬ s.KeysArePending := by
    intro s v hs hm hc hkeys
    exact (inv_of_reachable ⟨_, hs⟩).keysArePending_iff.mp hkeys 0 ⟨0, hm, by simp [hc]⟩
  exact ⟨_, rfl, rfl, rfl, hno _ _ rfl rfl rfl⟩

end MpRpc.Client
