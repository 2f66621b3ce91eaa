import MpRpc.Client

/-!
# Invariant — what a step of the client can do, and what it keeps

`SettledBy` says once what the completing functions do to the calls: some
requests that were pending take one value, and nothing else changes. The
walks over `requests_`, the `try` block and `on_read` are specified by it,
and the invariant of the client is preserved because of it.
-/

namespace MpRpc.Client

open ResponseFutureData

variable {H : Type*} {s t : Client H} {r r' : Nat} {m : Msgid}

/-! ## The record of one call -/

@[simp] theorem phase_setFuture (d : ResponseFutureData H) :
    (s.setFuture r d).phase r' = s.phase r' := by
  simp only [phase, setFuture, List.getElem?_modify, Option.map_map, Option.map_eq_map]
  congr 1
  funext c
  simp only [Function.comp_apply]
  split <;> rfl

@[simp] theorem idOf_setFuture (d : ResponseFutureData H) :
    (s.setFuture r d).idOf r' = s.idOf r' := by
  simp only [idOf, phase_setFuture]

@[simp] theorem asked_setFuture (d : ResponseFutureData H) :
    (s.setFuture r d).asked r' = s.asked r' := by
  simp only [asked, setFuture, List.getElem?_modify, Option.map_map, Option.map_eq_map]
  congr 1
  funext c
  simp only [Function.comp_apply]
  split <;> rfl

@[simp] theorem asked_setPhase (p : CallPhase) : (s.setPhase r p).asked r' = s.asked r' := by
  simp only [asked, setPhase, List.getElem?_modify, Option.map_map, Option.map_eq_map]
  congr 1
  funext c
  simp only [Function.comp_apply]
  split <;> rfl

@[simp] theorem requests_setFuture (d : ResponseFutureData H) :
    (s.setFuture r d).requests = s.requests := rfl

@[simp] theorem future_setPhase (p : CallPhase) :
    (s.setPhase r p).future r' = s.future r' := by
  simp only [future, setPhase, List.getElem?_modify, Option.map_map, Option.map_eq_map]
  congr 2
  funext c
  simp only [Function.comp_apply]
  split <;> rfl

theorem future_setFuture_ne (d : ResponseFutureData H) (h : r' ≠ r) :
    (s.setFuture r d).future r' = s.future r' := by
  simp [future, setFuture, h.symm]

theorem phase_setPhase_ne (p : CallPhase) (h : r' ≠ r) :
    (s.setPhase r p).phase r' = s.phase r' := by
  simp [phase, setPhase, h.symm]

/-- A call that has a phase is in the list. -/
theorem exists_call {p : CallPhase} (h : s.phase r = some p) :
    ∃ c, s.calls[r]? = some c ∧ c.phase = p := by
  simpa [phase] using h

theorem phase_of_idOf (h : s.idOf r = some m) : s.phase r = some (.registered m) := by
  unfold idOf at h
  split at h
  · cases h; assumption
  · cases h

theorem future_setFuture_self (d : ResponseFutureData H) {p : CallPhase}
    (h : s.phase r = some p) : (s.setFuture r d).future r = d := by
  obtain ⟨c, hc, -⟩ := exists_call h
  simp [future, setFuture, hc]

theorem phase_setPhase_self (q : CallPhase) {p : CallPhase} (h : s.phase r = some p) :
    (s.setPhase r q).phase r = some q := by
  obtain ⟨c, hc, -⟩ := exists_call h
  simp [phase, setPhase, hc]

/-! What the steps that complete nothing do to the records. -/

/-- A new call has no msgid. -/
theorem idOf_addCall (c : Call H) {candidate n : Msgid} (hp : c.phase = .fetched candidate) :
    idOf { s with calls := s.calls ++ [c], nextMsgid := n } = s.idOf := by
  funext r
  rcases Nat.lt_trichotomy r s.calls.length with hr | hr | hr
  · simp [idOf, phase, List.getElem?_append_left hr]
  · simp [idOf, phase, hr, hp]
  · have hout : (s.calls ++ [c])[r]? = none := by simp; omega
    simp [idOf, phase, hout, hr.le]

/-- Its cell is as good as none. -/
theorem future_addCall (c : Call H) {n : Msgid} (hf : c.future = {}) :
    future { s with calls := s.calls ++ [c], nextMsgid := n } = s.future := by
  funext r
  rcases Nat.lt_trichotomy r s.calls.length with hr | hr | hr
  · simp [future, List.getElem?_append_left hr]
  · simp [future, hr, hf]
  · have hout : (s.calls ++ [c])[r]? = none := by simp; omega
    simp [future, hout, hr.le]

/-- A call that has not registered moves to another such phase. -/
theorem idOf_setPhase {p q : CallPhase} (hr : s.phase r = some p)
    (hp : ∀ m, p ≠ .registered m) (hq : ∀ m, q ≠ .registered m) :
    (s.setPhase r q).idOf = s.idOf := by
  funext r'
  by_cases hne : r' = r
  · subst hne
    simp only [idOf, phase_setPhase_self q hr, hr]
    cases p <;> cases q <;> simp_all
  · simp only [idOf, phase_setPhase_ne q hne]

theorem future_enroll (msg : MessageData) : (s.enroll r m msg).future = s.future :=
  funext fun _ => future_setPhase (.registered m)

theorem idOf_enroll_self {p : CallPhase} (hr : s.phase r = some p) (msg : MessageData) :
    (s.enroll r m msg).idOf r = some m := by
  have hphase : (s.enroll r m msg).phase r = some (.registered m) :=
    phase_setPhase_self (.registered m) hr
  simp only [idOf, hphase]

theorem idOf_enroll_ne (h : r' ≠ r) (msg : MessageData) :
    (s.enroll r m msg).idOf r' = s.idOf r' := by
  have hphase : (s.enroll r m msg).phase r' = s.phase r' := phase_setPhase_ne (.registered m) h
  simp only [idOf, hphase]

/-- Setting a handler completes nothing. -/
theorem completion_setHandler (hwf : (s.future r).Wf) (hr : s.idOf r = some m) {handler : H}
    {d : ResponseFutureData H} (hd : (s.future r).setHandler handler = .ok d) :
    (s.setFuture r d).completion = s.completion := by
  funext r'
  by_cases hne : r' = r
  · rw [hne, completion, future_setFuture_self d (phase_of_idOf hr), (hwf.setHandler hd).2]
    rfl
  · rw [completion, future_setFuture_ne d hne]
    rfl

/-! ## Completing requests -/

/-- From `s` to `t` the requests of `done`, all of them pending, are completed
with `v`; the rest of the client is the same. -/
structure SettledBy (v : ErrorInfo × Message) (done : List Nat) (s t : Client H) : Prop where
  frame : t = { s with calls := t.calls }
  asked : ∀ r, t.asked r = s.asked r
  phase : ∀ r, t.phase r = s.phase r
  wf : ∀ r, (t.future r).Wf
  settled : ∀ r ∈ done, s.completion r = none ∧ t.completion r = some v
  others : ∀ r, r ∉ done → t.future r = s.future r

namespace SettledBy

variable {v : ErrorInfo × Message} {done : List Nat}

theorem refl (hwf : ∀ r, (s.future r).Wf) : SettledBy v [] s s :=
  ⟨rfl, fun _ => rfl, fun _ => rfl, hwf, by simp, fun _ _ => rfl⟩

theorem idOf (h : SettledBy v done s t) (r : Nat) : t.idOf r = s.idOf r := by
  simp only [Client.idOf, h.phase]

theorem requests (h : SettledBy v done s t) : t.requests = s.requests := by
  rw [h.frame]

theorem writes (h : SettledBy v done s t) : t.writes = s.writes := by
  rw [h.frame]

theorem thrown (h : SettledBy v done s t) : t.thrown = s.thrown := by
  rw [h.frame]

theorem completion_of_notMem (h : SettledBy v done s t) (hr : r ∉ done) :
    t.completion r = s.completion r := by
  simp only [Client.completion, h.others r hr]

/-- A completed request keeps its completion. -/
theorem completion_mono (h : SettledBy v done s t) {w : ErrorInfo × Message}
    (hw : s.completion r = some w) : t.completion r = some w := by
  by_cases hr : r ∈ done
  · simp [(h.settled r hr).1] at hw
  · rw [h.completion_of_notMem hr, hw]

/-- Completing one more request. -/
theorem cons {u : Client H} (h₁ : SettledBy v [r] s t) (h₂ : SettledBy v done t u) :
    SettledBy v (r :: done) s u where
  frame := by
    rw [h₂.frame, h₁.frame]
  asked r' := by rw [h₂.asked, h₁.asked]
  phase r' := by rw [h₂.phase, h₁.phase]
  wf := h₂.wf
  settled r' hr' := by
    by_cases hmem : r' ∈ done
    · have hnone := (h₂.settled r' hmem).1
      have hne : r' ∉ [r] := fun hin => by simp [(h₁.settled r' hin).2] at hnone
      exact ⟨by rw [← h₁.completion_of_notMem hne, hnone], (h₂.settled r' hmem).2⟩
    · have hr : r' = r := by simpa [hmem] using hr'
      have hin : r' ∈ [r] := by simp [hr]
      exact ⟨(h₁.settled r' hin).1, h₂.completion_mono (h₁.settled r' hin).2⟩
  others r' hr' := by
    have hr : r' ∉ [r] ∧ r' ∉ done := by simpa using hr'
    rw [h₂.others r' hr.2, h₁.others r' hr.1]

/-- Writing a completed cell over the pending one of a registered request. -/
theorem setFuture (hwf : ∀ r, (s.future r).Wf) {d : ResponseFutureData H}
    (hr : s.idOf r = some m) (hp : s.completion r = none) (hd : d.Wf)
    (hv : d.completion = some v) : SettledBy v [r] s (s.setFuture r d) where
  frame := rfl
  asked _ := asked_setFuture d
  phase _ := phase_setFuture d
  wf r' := by
    by_cases h : r' = r
    · rw [h, future_setFuture_self d (phase_of_idOf hr)]
      exact hd
    · rw [future_setFuture_ne d h]
      exact hwf r'
  settled r' hr' := by
    obtain rfl : r' = r := by simpa using hr'
    refine ⟨hp, ?_⟩
    rw [Client.completion, future_setFuture_self d (phase_of_idOf hr), hv]
  others r' hr' := future_setFuture_ne d (by simpa using hr')

end SettledBy

/-- **The walk.** `setErrorAll` completes the requests it meets until it meets
a completed one; it throws exactly if it does. -/
theorem setErrorAll_spec (error : ErrorInfo) {rs : List Nat} (hwf : ∀ r, (s.future r).Wf)
    (hid : ∀ r ∈ rs, ∃ m, s.idOf r = some m) (hnodup : rs.Nodup) :
    ∃ done, SettledBy (error, {}) done s (setErrorAll error rs s).1 ∧ done ⊆ rs ∧
      ((setErrorAll error rs s).2 = none ∧ done = rs ∧ (∀ r ∈ rs, s.completion r = none) ∨
        (setErrorAll error rs s).2 = some (.exception alreadyCompleted) ∧
          ∃ r ∈ rs, s.completion r ≠ none) := by
  induction rs generalizing s with
  | nil => exact ⟨[], .refl hwf, by simp, .inl ⟨rfl, rfl, by simp⟩⟩
  | cons r rs ih =>
    by_cases hp : s.completion r = none
    · obtain ⟨d, hd, hdwf, hdv⟩ := (hwf r).setError hp error
      obtain ⟨m, hm⟩ := hid r (by simp)
      have h₁ : SettledBy (error, {}) [r] s (s.setFuture r d) :=
        .setFuture hwf hm hp hdwf hdv
      obtain ⟨hr, hnodup⟩ := List.nodup_cons.mp hnodup
      obtain ⟨done, h₂, hsub, hout⟩ := ih h₁.wf
        (fun r' hr' => by simpa using hid r' (List.mem_cons_of_mem _ hr')) hnodup
      -- the rest of the walk sees the other requests as they were
      have hsame : ∀ r' ∈ rs, (s.setFuture r d).completion r' = s.completion r' := by
        intro r' hr'
        have hne : r' ≠ r := fun h => hr (h ▸ hr')
        exact h₁.completion_of_notMem (by simpa using hne)
      simp only [setErrorAll, hd]
      refine ⟨r :: done, h₁.cons h₂, List.cons_subset_cons r hsub, ?_⟩
      rcases hout with ⟨hnone, rfl, hall⟩ | ⟨hex, r', hr', hc⟩
      · refine .inl ⟨hnone, rfl, fun r' hr' => ?_⟩
        rcases List.mem_cons.mp hr' with rfl | hr'
        · exact hp
        · rw [← hsame r' hr', hall r' hr']
      · exact .inr ⟨hex, r', List.mem_cons_of_mem _ hr', by rwa [← hsame r' hr']⟩
    · have hstop : setErrorAll error (r :: rs) s = (s, some (.exception alreadyCompleted)) := by
        simp [setErrorAll, setError_of_completed hp]
      rw [hstop]
      exact ⟨[], .refl hwf, by simp, .inr ⟨rfl, r, by simp, hp⟩⟩

/-! ## The invariant -/

/-- What holds in every reachable state. -/
structure Inv (s : Client H) : Prop where
  wf : ∀ r, (s.future r).Wf
  /-- An entry is of the request that was registered under its key. -/
  entry : ∀ m r, s.requests.lookup m = some r → s.idOf r = some m
  /-- An entry is given up only when its request is completed. -/
  pending : ∀ m r, s.idOf r = some m → s.completion r = none → s.requests.lookup m = some r
  /-- The promise of a call is not shared before it is registered. -/
  fresh : ∀ r, s.idOf r = none → s.completion r = none
  /-- The request of an outstanding write has its entry, and only one write. -/
  writing : ∀ m ∈ s.writes.filterMap Write.msgid, m ∈ s.requests
  writesNodup : (s.writes.filterMap Write.msgid).Nodup

theorem inv_init : Inv ({} : Client H) where
  wf _ := wf_default
  entry _ _ h := by simp at h
  pending _ _ h := by simp [idOf, phase] at h
  fresh _ _ := rfl
  writing := by simp
  writesNodup := by simp

/-- Only the calls, the entries and the outstanding writes are part of the
invariant. -/
theorem Inv.of_same (h : s.Inv) (hcalls : t.calls = s.calls) (hreq : t.requests = s.requests)
    (hwrites : t.writes = s.writes) : t.Inv := by
  obtain ⟨nextMsgid, requests, calls, writes, reads, readFailed, caught, thrown⟩ := t
  cases hcalls
  cases hreq
  cases hwrites
  exact ⟨h.wf, h.entry, h.pending, h.fresh, h.writing, h.writesNodup⟩

/-- Completing entries of `requests_` keeps the invariant. -/
theorem Inv.settledBy {v : ErrorInfo × Message} {done : List Nat} (h : s.Inv)
    (hs : SettledBy v done s t) (hdone : ∀ r ∈ done, ∃ m, s.requests.lookup m = some r) :
    t.Inv where
  wf := hs.wf
  entry m r hm := by
    rw [hs.idOf]
    exact h.entry m r (hs.requests ▸ hm)
  pending m r hid hp := by
    rw [hs.idOf] at hid
    by_cases hr : r ∈ done
    · simp [(hs.settled r hr).2] at hp
    · rw [hs.requests]
      exact h.pending m r hid (hs.completion_of_notMem hr ▸ hp)
  fresh r hid := by
    rw [hs.idOf] at hid
    by_cases hr : r ∈ done
    · obtain ⟨m, hm⟩ := hdone r hr
      simp [h.entry m r hm] at hid
    · rw [hs.completion_of_notMem hr, h.fresh r hid]
  writing := by
    rw [hs.writes, hs.requests]
    exact h.writing
  writesNodup := by
    rw [hs.writes]
    exact h.writesNodup

/-! ## The functions that complete requests -/

/-- The requests a walk over `requests_` meets. -/
theorem mem_walk {order : List Msgid} (ho : order.Perm s.requests.keys) :
    r ∈ order.filterMap s.requests.lookup ↔ ∃ m, s.requests.lookup m = some r := by
  rw [List.mem_filterMap]
  constructor
  · intro hex
    obtain ⟨m, -, hm⟩ := hex
    exact ⟨m, hm⟩
  · intro hex
    obtain ⟨m, hm⟩ := hex
    have hkey : m ∈ s.requests := AList.lookup_isSome.mp (by simp [hm])
    exact ⟨m, ho.mem_iff.mpr (AList.mem_keys.mpr hkey), hm⟩

theorem Inv.walk_nodup (h : s.Inv) {order : List Msgid} (ho : order.Perm s.requests.keys) :
    (order.filterMap s.requests.lookup).Nodup := by
  refine (ho.nodup_iff.mpr s.requests.keys_nodup).filterMap ?_
  intro m m' r hm hm'
  have hid := h.entry m r hm
  rw [h.entry m' r hm'] at hid
  exact (Option.some.inj hid).symm

/-- **Broadcasting an error** completes every entry, unless there is an entry of
a completed request, and then it throws. -/
theorem Inv.broadcast (h : s.Inv) (error : ErrorInfo) {order : List Msgid}
    (ho : order.Perm s.requests.keys) :
    ∃ done, SettledBy (error, {}) done s (s.broadcast error order).1 ∧
      (∀ r ∈ done, ∃ m, s.requests.lookup m = some r) ∧
      ((s.broadcast error order).2 = none ∧
          (∀ m r, s.requests.lookup m = some r → r ∈ done) ∧ (∀ m, ¬ s.Answered m) ∨
        (s.broadcast error order).2 = some (.exception alreadyCompleted) ∧
          ∃ m, s.Answered m) := by
  have hid : ∀ r ∈ order.filterMap s.requests.lookup, ∃ m, s.idOf r = some m := by
    intro r hr
    obtain ⟨m, hm⟩ := (mem_walk ho).mp hr
    exact ⟨m, h.entry m r hm⟩
  obtain ⟨done, hs, hsub, hout⟩ := setErrorAll_spec error h.wf hid (h.walk_nodup ho)
  refine ⟨done, hs, fun r hr => (mem_walk ho).mp (hsub hr), ?_⟩
  rcases hout with ⟨hnone, rfl, hall⟩ | ⟨hex, r, hr, hc⟩
  · refine .inl ⟨hnone, fun m r hm => (mem_walk ho).mpr ⟨m, hm⟩, ?_⟩
    intro m hex
    obtain ⟨r, hm, hc⟩ := hex
    exact hc (hall r ((mem_walk ho).mpr ⟨m, hm⟩))
  · obtain ⟨m, hm⟩ := (mem_walk ho).mp hr
    exact .inr ⟨hex, m, r, hm, hc⟩

/-- `data` is not a well-formed response: `message()` rejects it with
`mprpc::exception`, or its type is another. -/
def Violation (data : MessageData) : Prop :=
  (∃ info, Message.ofData data = .error (.exception info)) ∨
    ∃ msg, Message.ofData data = .ok msg ∧ msg.type ≠ some .response

/-- `data` is a well-formed response, read as `msg`. -/
def IsResponse (data : MessageData) (msg : Message) : Prop :=
  Message.ofData data = .ok msg ∧ msg.type = some .response

/-- Every received message is a response, a violation, or ends early. -/
theorem data_cases (data : MessageData) :
    (∃ msg, IsResponse data msg) ∨ Violation data ∨
      Message.ofData data = .error .insufficientBytes := by
  unfold IsResponse Violation
  cases hd : Message.ofData data with
  | ok msg =>
    by_cases ht : msg.type = some .response
    · exact .inl ⟨msg, rfl, ht⟩
    · exact .inr (.inl (.inr ⟨msg, rfl, ht⟩))
  | error ex =>
    unfold Message.ofData at hd
    split at hd
    · cases hd; exact .inr (.inl (.inl ⟨_, rfl⟩))
    · cases hd; exact .inr (.inr rfl)
    · split at hd
      · cases hd; exact .inr (.inl (.inl ⟨_, rfl⟩))
      · cases hd

theorem onRead_error {error : ErrorInfo} (he : error.hasError = true) (data : MessageData)
    (order : List Msgid) : s.onRead error data order = s.broadcast error order := by
  simp [onRead, he]

theorem onRead_violation {error : ErrorInfo} (he : error.hasError = false)
    {data : MessageData} (hd : Violation data) (order : List Msgid) :
    s.onRead error data order = s.doRead.broadcast error order := by
  rcases hd with ⟨info, hd⟩ | ⟨msg, hd, ht⟩
  · simp [onRead, he, receive, hd]
  · simp [onRead, he, receive, hd, ht]

theorem onRead_truncated {error : ErrorInfo} (he : error.hasError = false)
    {data : MessageData} (hd : Message.ofData data = .error .insufficientBytes)
    (order : List Msgid) :
    s.onRead error data order = (s.doRead, some .insufficientBytes) := by
  simp [onRead, he, receive, hd]

theorem onRead_unknown {error : ErrorInfo} (he : error.hasError = false)
    {data : MessageData} {msg : Message} (hd : IsResponse data msg)
    (hm : s.requests.lookup msg.msgid = none) (order : List Msgid) :
    s.onRead error data order = (s.doRead, none) := by
  obtain ⟨hd, ht⟩ := hd
  have hm' : s.doRead.requests.lookup msg.msgid = none := hm
  simp [onRead, he, receive, hd, ht, hm']

theorem onRead_answered {error : ErrorInfo} (he : error.hasError = false)
    {data : MessageData} {msg : Message} (hd : IsResponse data msg)
    (hm : s.Answered msg.msgid) (order : List Msgid) :
    s.onRead error data order = s.doRead.broadcast error order := by
  obtain ⟨hd, ht⟩ := hd
  obtain ⟨r, hm, hc⟩ := hm
  have hm' : s.doRead.requests.lookup msg.msgid = some r := hm
  have hc' : (s.doRead.future r).setResponse msg = .error alreadyCompleted :=
    setResponse_of_completed hc msg
  simp [onRead, he, receive, hd, ht, hm', hc']

theorem Inv.doRead (h : s.Inv) : s.doRead.Inv := h.of_same rfl rfl rfl

/-- The first response for a pending request completes it, and only it. -/
theorem Inv.onRead_pending (h : s.Inv) {error : ErrorInfo} (he : error.hasError = false)
    {data : MessageData} {msg : Message} (hd : IsResponse data msg)
    (hm : s.requests.lookup msg.msgid = some r) (hp : s.completion r = none)
    (order : List Msgid) :
    SettledBy ({}, msg) [r] s.doRead (s.onRead error data order).1 ∧
      (s.onRead error data order).2 = none := by
  obtain ⟨hd, ht⟩ := hd
  have hm' : s.doRead.requests.lookup msg.msgid = some r := hm
  obtain ⟨d, hset, hwf, hv⟩ := (h.wf r).setResponse hp msg
  have hset' : (s.doRead.future r).setResponse msg = .ok d := hset
  have heq : s.onRead error data order = (s.doRead.setFuture r d, none) := by
    simp [onRead, he, receive, hd, ht, hm', hset']
  have hid : s.doRead.idOf r = some msg.msgid := h.entry _ r hm
  rw [heq]
  exact ⟨.setFuture h.doRead.wf hid hp hwf hv, rfl⟩

/-- **What `on_read` does**, in every case: it completes entries of `requests_`
with one value, and may issue a read. -/
theorem Inv.onRead (h : s.Inv) (error : ErrorInfo) (data : MessageData) {order : List Msgid}
    (ho : order.Perm s.requests.keys) :
    ∃ v done base, (base = s ∨ base = s.doRead) ∧
      SettledBy v done base (s.onRead error data order).1 ∧
      ∀ r ∈ done, ∃ m, s.requests.lookup m = some r := by
  cases he : error.hasError with
  | true =>
    obtain ⟨done, hs, hdone, -⟩ := h.broadcast error ho
    rw [onRead_error he]
    exact ⟨_, done, s, .inl rfl, hs, hdone⟩
  | false =>
    obtain ⟨done, hs, hdone, -⟩ := h.doRead.broadcast error ho
    rcases data_cases data with ⟨msg, hd⟩ | hd | hd
    · cases hm : s.requests.lookup msg.msgid with
      | none =>
        rw [onRead_unknown he hd hm]
        exact ⟨({}, msg), [], s.doRead, .inr rfl, .refl h.wf, by simp⟩
      | some r =>
        by_cases hp : s.completion r = none
        · exact ⟨_, [r], s.doRead, .inr rfl, (h.onRead_pending he hd hm hp order).1,
            by simpa using ⟨_, hm⟩⟩
        · rw [onRead_answered he hd ⟨r, hm, hp⟩]
          exact ⟨_, done, s.doRead, .inr rfl, hs, hdone⟩
    · rw [onRead_violation he hd]
      exact ⟨_, done, s.doRead, .inr rfl, hs, hdone⟩
    · rw [onRead_truncated he hd]
      exact ⟨({}, {}), [], s.doRead, .inr rfl, .refl h.wf, by simp⟩

/-! ## What each event does

One lemma for each event that is not always enabled: when it is, and the state
after it in terms of the functions above. -/

theorem step_fetch (he : s.step (.fetch r) = some t) :
    s.phase r = some .collided ∧
      t = { s.setPhase r (.fetched s.nextMsgid) with nextMsgid := s.nextMsgid + 1 } := by
  simp only [step] at he
  split at he
  · rename_i hr
    exact ⟨hr, (Option.some.inj he).symm⟩
  · cases he

theorem step_register (he : s.step (.register r) = some t) :
    ∃ c candidate, s.calls[r]? = some c ∧ s.phase r = some (.fetched candidate) ∧
      (t = s.setPhase r .collided ∨ candidate ∉ s.requests ∧
        t = s.enroll r candidate (packRequest candidate c.method c.params)) := by
  simp only [step] at he
  split at he
  · rename_i c hc
    split at he
    · rename_i candidate hphase
      refine ⟨c, candidate, hc, by simp [phase, hc, hphase], ?_⟩
      rw [← Option.some.inj he, emplace]
      split
      · exact .inl rfl
      · rename_i hm
        exact .inr ⟨hm, rfl⟩
    · cases he
  · cases he

theorem step_setHandler {handler : H} (he : s.step (.setHandler r handler) = some t) :
    ∃ m, s.idOf r = some m ∧
      (t = s ∨ ∃ d, (s.future r).setHandler handler = .ok d ∧ t = s.setFuture r d) := by
  simp only [step] at he
  split at he
  · cases he
  · rename_i m hr
    refine ⟨m, hr, ?_⟩
    split at he
    · exact .inl (Option.some.inj he).symm
    · rename_i d hd
      exact .inr ⟨d, hd, (Option.some.inj he).symm⟩

theorem step_writeDone {i : Nat} {error : ErrorInfo} (he : s.step (.writeDone i error) = some t) :
    ∃ (w : Write) (base : Client H), s.writes[i]? = some w ∧
      base = { s with writes := s.writes.eraseIdx i } ∧
      (t = base ∨ ∃ m, w.msgid = some m ∧ error.hasError = true ∧
        t = escape (base.onWriteError m error)) := by
  simp only [step] at he
  split at he
  · cases he
  · rename_i w hw
    refine ⟨w, _, hw, rfl, ?_⟩
    split at he
    · exact .inl (Option.some.inj he).symm
    · rename_i m hm
      split at he
      · rename_i herror
        exact .inr ⟨m, hm, herror, (Option.some.inj he).symm⟩
      · exact .inl (Option.some.inj he).symm

theorem step_readDone {error : ErrorInfo} {data : MessageData} {order : List Msgid}
    (he : s.step (.readDone error data order) = some t) :
    order.Perm s.requests.keys ∧ ∃ base : Client H,
      base = { s with reads := s.reads - 1, readFailed := s.readFailed || error.hasError } ∧
      t = if error.hasError then escape (base.onRead error data order)
        else escapeToTransport (base.onRead error data order) := by
  simp only [step] at he
  split at he
  · rename_i hcond
    refine ⟨hcond.2, _, rfl, ?_⟩
    split at he
    · rename_i herror
      rw [if_pos herror, Option.some.inj he]
    · rename_i herror
      rw [if_neg herror, Option.some.inj he]
  · cases he

theorem step_readAgain {order : List Msgid} (he : s.step (.readAgain order) = some t) :
    order.Perm s.requests.keys ∧
      ∃ (info : ErrorInfo) (caught : List ErrorInfo) (base : Client H),
        s.caught = info :: caught ∧ base = { s with caught, readFailed := true } ∧
        t = escape (base.onRead info [] order) := by
  simp only [step] at he
  split at he
  · cases he
  · rename_i info caught hc
    split at he
    · rename_i ho
      exact ⟨ho, info, caught, _, hc, rfl, (Option.some.inj he).symm⟩
    · cases he

/-! ## Steps and runs -/

/-- Nothing is taken back: a call keeps what it asked for, a registered request
its msgid, and a completed one its completion. -/
structure Evolves (s t : Client H) : Prop where
  asked : ∀ r q, s.asked r = some q → t.asked r = some q
  idOf : ∀ r m, s.idOf r = some m → t.idOf r = some m
  completion : ∀ r v, s.completion r = some v → t.completion r = some v

theorem Evolves.of_calls (h : t.calls = s.calls) : Evolves s t where
  asked r q hq := by simpa only [Client.asked, h] using hq
  idOf r m hm := by simpa only [Client.idOf, Client.phase, h] using hm
  completion r v hv := by simpa only [Client.completion, Client.future, h] using hv

theorem Evolves.trans {u : Client H} (h₁ : Evolves s t) (h₂ : Evolves t u) : Evolves s u :=
  ⟨fun r q h => h₂.asked r q (h₁.asked r q h), fun r m h => h₂.idOf r m (h₁.idOf r m h),
    fun r v h => h₂.completion r v (h₁.completion r v h)⟩

theorem Evolves.from_calls {u : Client H} (h : Evolves t u) (hc : t.calls = s.calls) :
    Evolves s u :=
  .trans (.of_calls hc) h

theorem SettledBy.evolves {v : ErrorInfo × Message} {done : List Nat}
    (h : SettledBy v done s t) : Evolves s t :=
  ⟨fun r q hq => by rw [h.asked, hq], fun r m hm => by rw [h.idOf, hm],
    fun r _ => h.completion_mono⟩

/-- The invariant and `Evolves` look at the ids and futures of the calls, the
entries and the outstanding writes only. -/
theorem Inv.congr (h : s.Inv) (hasked : ∀ r q, s.asked r = some q → t.asked r = some q)
    (hid : t.idOf = s.idOf) (hfuture : t.future = s.future)
    (hreq : t.requests = s.requests)
    (hwrites : t.writes.filterMap Write.msgid = s.writes.filterMap Write.msgid) :
    t.Inv ∧ Evolves s t := by
  have hcompletion : t.completion = s.completion := by
    funext r
    simp only [Client.completion, hfuture]
  refine ⟨⟨?_, ?_, ?_, ?_, ?_, ?_⟩, hasked, ?_, ?_⟩
  · simpa only [hfuture] using h.wf
  · simpa only [hreq, hid] using h.entry
  · simpa only [hreq, hid, hcompletion] using h.pending
  · simpa only [hid, hcompletion] using h.fresh
  · simpa only [hwrites, hreq] using h.writing
  · simpa only [hwrites] using h.writesNodup
  · simp only [hid, imp_self, implies_true]
  · simp only [hcompletion, imp_self, implies_true]

/-- A new call has neither msgid nor completion. -/
theorem Inv.call (h : s.Inv) (c : Call H) {candidate n : Msgid}
    (hp : c.phase = .fetched candidate) (hf : c.future = {}) :
    Inv { s with calls := s.calls ++ [c], nextMsgid := n } ∧
      Evolves s { s with calls := s.calls ++ [c], nextMsgid := n } := by
  refine h.congr ?_ (idOf_addCall c hp) (future_addCall c hf) rfl rfl
  intro r q hq
  obtain ⟨c', hget, hq⟩ := Option.map_eq_some_iff.mp hq
  have hr := (List.getElem?_eq_some_iff.mp hget).1
  exact Option.map_eq_some_iff.mpr ⟨c', by rw [← hget]; exact List.getElem?_append_left hr, hq⟩

/-- Moving a call that has not registered to another such phase. -/
theorem Inv.setPhase (h : s.Inv) {p q : CallPhase} (hr : s.phase r = some p)
    (hp : ∀ m, p ≠ .registered m) (hq : ∀ m, q ≠ .registered m) :
    (s.setPhase r q).Inv ∧ Evolves s (s.setPhase r q) := by
  exact h.congr (fun r' a ha => by rwa [asked_setPhase]) (idOf_setPhase hr hp hq)
    (funext fun _ => future_setPhase q) rfl rfl

/-- Registering a request under a msgid that is not in use. -/
theorem Inv.enroll (h : s.Inv) {candidate : Msgid} (hr : s.phase r = some (.fetched candidate))
    (hm : m ∉ s.requests) (msg : MessageData) :
    (s.enroll r m msg).Inv ∧ Evolves s (s.enroll r m msg) := by
  generalize ht : s.enroll r m msg = t
  have hreq : t.requests = s.requests.insert m r := by subst ht; rfl
  have hwrites : t.writes.filterMap Write.msgid = s.writes.filterMap Write.msgid ++ [m] := by
    subst ht
    simp [Client.enroll, doWriteRequest, Client.setPhase]
  have hfuture : t.future = s.future := by subst ht; exact future_enroll msg
  have hcompletion : ∀ r', t.completion r' = s.completion r' := by
    intro r'
    simp only [Client.completion, hfuture]
  have hself : t.idOf r = some m := by subst ht; exact idOf_enroll_self hr msg
  have hother : ∀ r', r' ≠ r → t.idOf r' = s.idOf r' := by
    intro r' hne
    subst ht
    exact idOf_enroll_ne hne msg
  have hnew : s.idOf r = none := by simp only [Client.idOf, hr]
  have hasked : ∀ r', t.asked r' = s.asked r' := by
    intro r'
    subst ht
    exact asked_setPhase (.registered m)
  refine ⟨⟨?_, ?_, ?_, ?_, ?_, ?_⟩, fun r' q hq => by rw [hasked, hq], ?_, ?_⟩
  · simpa only [hfuture] using h.wf
  · intro m' r' hlook
    rw [hreq] at hlook
    -- the new entry is of `r`; the others are of requests registered before
    by_cases hm' : m' = m
    · rw [hm', AList.lookup_insert] at hlook
      rw [← Option.some.inj hlook, hself, hm']
    · rw [AList.lookup_insert_ne hm'] at hlook
      have hid := h.entry m' r' hlook
      have hne : r' ≠ r := fun heq => by simp [heq, hnew] at hid
      rw [hother r' hne, hid]
  · intro m' r' hid hp
    rw [hcompletion] at hp
    rw [hreq]
    by_cases hne : r' = r
    · rw [hne, hself] at hid
      rw [← Option.some.inj hid, AList.lookup_insert, hne]
    · rw [hother r' hne] at hid
      have hlook := h.pending m' r' hid hp
      have hm' : m' ≠ m := by
        intro heq
        subst heq
        exact hm (AList.lookup_isSome.mp (by simp [hlook]))
      rw [AList.lookup_insert_ne hm', hlook]
  · intro r' hid
    have hne : r' ≠ r := fun heq => by simp [heq, hself] at hid
    rw [hcompletion, h.fresh r' (hother r' hne ▸ hid)]
  · intro m' hm'
    rw [hwrites, List.mem_append, List.mem_singleton] at hm'
    rw [hreq, AList.mem_insert]
    exact hm'.symm.imp_right (h.writing m')
  · rw [hwrites]
    refine List.nodup_append.mpr ⟨h.writesNodup, by simp, ?_⟩
    intro m' hm' m'' hm''
    rw [List.mem_singleton] at hm''
    exact fun heq => hm (hm'' ▸ heq ▸ h.writing m' hm')
  · intro r' m' hid
    have hne : r' ≠ r := fun heq => by simp [heq, hnew] at hid
    rw [hother r' hne, hid]
  · intro r' v hv
    rw [hcompletion, hv]

theorem Inv.setHandler (h : s.Inv) (hr : s.idOf r = some m) {handler : H}
    {d : ResponseFutureData H} (hd : (s.future r).setHandler handler = .ok d) :
    (s.setFuture r d).Inv ∧ Evolves s (s.setFuture r d) := by
  have hwf := ((h.wf r).setHandler hd).1
  have hcompletion := completion_setHandler (h.wf r) hr hd
  refine ⟨⟨?_, ?_, ?_, ?_, h.writing, h.writesNodup⟩,
    fun r' q hq => by rw [asked_setFuture, hq], ?_, ?_⟩
  · intro r'
    by_cases hne : r' = r
    · rw [hne, future_setFuture_self d (phase_of_idOf hr)]
      exact hwf
    · rw [future_setFuture_ne d hne]
      exact h.wf r'
  · simpa only [requests_setFuture, idOf_setFuture] using h.entry
  · simpa only [requests_setFuture, idOf_setFuture, hcompletion] using h.pending
  · simpa only [idOf_setFuture, hcompletion] using h.fresh
  · simp only [idOf_setFuture, imp_self, implies_true]
  · simp only [hcompletion, imp_self, implies_true]

/-- A reported write error either throws and changes nothing, because the entry
is gone or completed, or completes the request and erases its entry. -/
theorem Inv.onWriteError_cases (h : s.Inv) (m : Msgid) (error : ErrorInfo) :
    s.requests.lookup m = none ∧ s.onWriteError m error = (s, some .outOfRange) ∨
    s.Answered m ∧ s.onWriteError m error = (s, some (.exception alreadyCompleted)) ∨
    ∃ r t, s.requests.lookup m = some r ∧ SettledBy (error, {}) [r] s t ∧
      s.onWriteError m error = ({ t with requests := t.requests.erase m }, none) := by
  cases hm : s.requests.lookup m with
  | none => exact .inl ⟨rfl, by simp [onWriteError, hm]⟩
  | some r =>
    by_cases hp : s.completion r = none
    · obtain ⟨d, hd, hwf, hv⟩ := (h.wf r).setError hp error
      refine .inr (.inr ⟨r, s.setFuture r d, rfl,
        .setFuture h.wf (h.entry m r hm) hp hwf hv, ?_⟩)
      simp [onWriteError, hm, hd]
    · exact .inr (.inl ⟨⟨r, hm, hp⟩,
        by simp [onWriteError, hm, setError_of_completed hp]⟩)

/-- The entry of a completed request may go, once no write refers to it. -/
theorem Inv.erase (h : s.Inv) (hr : s.requests.lookup m = some r) (hc : s.completion r ≠ none)
    (hm : m ∉ s.writes.filterMap Write.msgid) :
    Inv { s with requests := s.requests.erase m } := by
  refine ⟨h.wf, ?_, ?_, h.fresh, ?_, h.writesNodup⟩
  · intro m' r' hlook
    by_cases heq : m' = m
    · rw [heq, AList.lookup_erase] at hlook
      cases hlook
    · exact h.entry m' r' (by rwa [AList.lookup_erase_ne heq] at hlook)
  · intro m' r' hid hp
    have hlook := h.pending m' r' hid hp
    have hne : m' ≠ m := by
      intro heq
      subst heq
      rw [hr] at hlook
      exact hc (Option.some.inj hlook ▸ hp)
    simp only [AList.lookup_erase_ne hne, hlook]
  · intro m' hm'
    have hne : m' ≠ m := fun heq => hm (heq ▸ hm')
    exact AList.mem_erase.mpr ⟨hne, h.writing m' hm'⟩

theorem Inv.onWriteError (h : s.Inv) (error : ErrorInfo)
    (hm : m ∉ s.writes.filterMap Write.msgid) :
    (s.onWriteError m error).1.Inv ∧ Evolves s (s.onWriteError m error).1 := by
  rcases h.onWriteError_cases m error with ⟨-, heq⟩ | ⟨-, heq⟩ | ⟨r, t, hr, hs, heq⟩
  · rw [heq]
    exact ⟨h, .of_calls rfl⟩
  · rw [heq]
    exact ⟨h, .of_calls rfl⟩
  · rw [heq]
    have ht : t.Inv := h.settledBy hs (by simpa using ⟨m, hr⟩)
    have hc : t.completion r ≠ none := by simp [(hs.settled r (by simp)).2]
    exact ⟨ht.erase (hs.requests ▸ hr) hc (hs.writes ▸ hm), hs.evolves.asked, hs.evolves.idOf,
      hs.evolves.completion⟩

/-- The write that completes is no longer outstanding, and no other write is of
the same request. -/
theorem Inv.eraseWrite (h : s.Inv) {i : Nat} {w : Write} (hw : s.writes[i]? = some w) :
    Inv { s with writes := s.writes.eraseIdx i } ∧
      ∀ m, w.msgid = some m →
        m ∉ (s.writes.eraseIdx i).filterMap Write.msgid ∧ m ∈ s.requests := by
  have hsub := (s.writes.eraseIdx_sublist i).filterMap Write.msgid
  refine ⟨⟨h.wf, h.entry, h.pending, h.fresh, fun m hm => h.writing m (hsub.subset hm),
    h.writesNodup.sublist hsub⟩, ?_⟩
  intro m hm
  -- the write and the others together are a permutation of all writes
  have hperm := (perm_cons_eraseIdx hw).filterMap Write.msgid
  rw [List.filterMap_cons_some hm] at hperm
  have hnodup := hperm.nodup_iff.mpr h.writesNodup
  exact ⟨(List.nodup_cons.mp hnodup).1, h.writing m (hperm.mem_iff.mp (by simp))⟩

/-! An escaping exception is recorded and changes nothing else. -/

theorem escape_eq (out : Client H × Option StdException) :
    ∃ thrown, escape out = { out.1 with thrown } := by
  obtain ⟨s, _ | ex⟩ := out
  · exact ⟨s.thrown, rfl⟩
  · exact ⟨_, rfl⟩

theorem escapeToTransport_eq (out : Client H × Option StdException) :
    ∃ thrown caught, escapeToTransport out = { out.1 with thrown, caught } := by
  obtain ⟨s, _ | ex⟩ := out
  · exact ⟨s.thrown, s.caught, rfl⟩
  · cases ex <;> exact ⟨_, _, rfl⟩

theorem inv_escape {out : Client H × Option StdException} (h : out.1.Inv ∧ Evolves s out.1) :
    (escape out).Inv ∧ Evolves s (escape out) := by
  obtain ⟨thrown, heq⟩ := escape_eq out
  rw [heq]
  exact ⟨h.1.of_same rfl rfl rfl, h.2.trans (.of_calls rfl)⟩

theorem inv_escapeToTransport {out : Client H × Option StdException}
    (h : out.1.Inv ∧ Evolves s out.1) :
    (escapeToTransport out).Inv ∧ Evolves s (escapeToTransport out) := by
  obtain ⟨thrown, caught, heq⟩ := escapeToTransport_eq out
  rw [heq]
  exact ⟨h.1.of_same rfl rfl rfl, h.2.trans (.of_calls rfl)⟩

theorem Inv.onRead_inv (h : s.Inv) (error : ErrorInfo) (data : MessageData)
    {order : List Msgid} (ho : order.Perm s.requests.keys) :
    (s.onRead error data order).1.Inv ∧ Evolves s (s.onRead error data order).1 := by
  obtain ⟨v, done, base, hbase, hs, hdone⟩ := h.onRead error data ho
  -- only the number of outstanding reads differs between the two cases
  rcases hbase with rfl | rfl
  · exact ⟨h.settledBy hs hdone, hs.evolves⟩
  · exact ⟨h.doRead.settledBy hs hdone, hs.evolves.from_calls rfl⟩

/-- **Every step keeps the invariant and takes nothing back.** -/
theorem Inv.step {e : Event H} (h : s.Inv) (he : s.step e = some t) : t.Inv ∧ Evolves s t := by
  cases e with
  | start =>
    cases he
    exact ⟨h.doRead, .of_calls rfl⟩
  | call method params =>
    cases he
    exact h.call _ rfl rfl
  | fetch r =>
    obtain ⟨hr, rfl⟩ := step_fetch he
    have hp := h.setPhase (q := .fetched s.nextMsgid) hr (by simp) (by simp)
    exact ⟨hp.1.of_same rfl rfl rfl, hp.2.trans (.of_calls rfl)⟩
  | register r =>
    obtain ⟨c, candidate, -, hr, rfl | ⟨hm, rfl⟩⟩ := step_register he
    · exact h.setPhase hr (by simp) (by simp)
    · exact h.enroll hr hm _
  | setHandler r handler =>
    obtain ⟨m, hr, rfl | ⟨d, hd, rfl⟩⟩ := step_setHandler he
    · exact ⟨h, .of_calls rfl⟩
    · exact h.setHandler hr hd
  | notify method params =>
    cases he
    exact h.congr (fun _ _ => id) rfl rfl rfl (by simp)
  | writeDone i error =>
    obtain ⟨w, base, hw, hbase, hcases⟩ := step_writeDone he
    obtain ⟨hinv, hfree⟩ := h.eraseWrite hw
    subst hbase
    rcases hcases with rfl | ⟨m, hm, -, rfl⟩
    · exact ⟨hinv, .of_calls rfl⟩
    · have hdone := hinv.onWriteError error (hfree m hm).1
      exact inv_escape ⟨hdone.1, hdone.2.from_calls rfl⟩
  | readDone error data order =>
    obtain ⟨ho, base, hbase, rfl⟩ := step_readDone he
    have hinv : base.Inv := hbase ▸ h.of_same rfl rfl rfl
    have hob : order.Perm base.requests.keys := by rw [hbase]; exact ho
    have hread := hinv.onRead_inv error data hob
    have hboth := And.intro hread.1 (hread.2.from_calls (s := s) (by rw [hbase]))
    split
    · exact inv_escape hboth
    · exact inv_escapeToTransport hboth
  | readAgain order =>
    obtain ⟨ho, info, caught, base, -, hbase, rfl⟩ := step_readAgain he
    have hinv : base.Inv := hbase ▸ h.of_same rfl rfl rfl
    have hob : order.Perm base.requests.keys := by rw [hbase]; exact ho
    have hread := hinv.onRead_inv info [] hob
    exact inv_escape ⟨hread.1, hread.2.from_calls (by rw [hbase])⟩

theorem inv_of_reachable (h : (machine H).Reachable s) : s.Inv :=
  h.invariant inv_init fun _ _ _ hs he => (hs.step he).1

/-- **Every run takes nothing back.** -/
theorem Inv.run {es : List (Event H)} (h : s.Inv) (hr : (machine H).run s es = some t) :
    t.Inv ∧ Evolves s t := by
  refine Machine.run_relation (R := fun s t => s.Inv → t.Inv ∧ Evolves s t)
    (fun s hs => ⟨hs, .of_calls rfl⟩) ?_ (fun _ _ _ he hs => hs.step he) hr h
  intro s t u hst htu hs
  obtain ⟨ht, hst⟩ := hst hs
  exact ⟨(htu ht).1, hst.trans (htu ht).2⟩

end MpRpc.Client
