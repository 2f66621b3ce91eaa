import MpRpc.Client.Distinct
import MpRpc.Client.Pending

/-!
# Effects — what a step of the client does to the requests

Each step of the client leaves the requests alone, registers one of them, fails one
because its message was not written, fails all of them because reading ended, or
completes one with its response. `Effect` lists what the client does by itself, with the
messages that it writes; the two lemmas about a completed read are the rest.
-/

namespace MpRpc

open Msgpack

/-- The arguments of an `async_request` or `notify` of which a message can be packed. -/
structure PackableCall where
  method : Bytes
  params : List Object
  methodSized : method.length < 2 ^ 32
  paramsPackable : (Object.array params).Packable

namespace Client

variable {H : Type*} {c d : Client H} {r : Nat}

/-- What the user, the threads in `async_request` and the completed writes do. -/
inductive UserEvent (H : Type*) where
  | asyncRequest (call : PackableCall)
  | fetch (r : Nat)
  | register (r : Nat)
  | setHandler (r : Nat) (handler : H)
  | notify (call : PackableCall)
  | writeDone (i : Nat) (error : ErrorInfo)

def UserEvent.toClient : UserEvent H → Event H
  | .asyncRequest call => .call call.method call.params
  | .fetch r => .fetch r
  | .register r => .register r
  | .setHandler r handler => .setHandler r handler
  | .notify call => .notify call.method call.params
  | .writeDone i error => .writeDone i error

/-- No write fails. -/
def UserEvent.Succeeds : UserEvent H → Prop
  | .writeDone _ error => error.hasError = false
  | _ => True

instance : DecidablePred (UserEvent.Succeeds (H := H))
  | .writeDone _ error => inferInstanceAs (Decidable (error.hasError = false))
  | .asyncRequest _ => .isTrue trivial
  | .fetch _ => .isTrue trivial
  | .register _ => .isTrue trivial
  | .setHandler _ _ => .isTrue trivial
  | .notify _ => .isTrue trivial

/-- The messages of the writes that a step of the client has added. -/
def sent (c d : Client H) : List MessageData :=
  (d.writes.drop c.writes.length).map Write.data

theorem sent_of_le (h : d.writes.length ≤ c.writes.length) : sent c d = [] := by
  rw [sent, List.drop_eq_nil_of_le h, List.map_nil]

/-! ## What a step may do -/

/-- The requests, their msgids and their completions are the same. -/
structure Untouched (c d : Client H) : Prop where
  requests : d.requests = c.requests
  idOf : d.idOf = c.idOf
  completion : d.completion = c.completion

/-- What the transport has outstanding for the client is the same. -/
structure SameReading (c d : Client H) : Prop where
  reads : d.reads = c.reads
  readFailed : d.readFailed = c.readFailed
  caught : d.caught = c.caught

/-- The step registers call `r` under `id` and writes its request. -/
structure Registers (c d : Client H) (r : Nat) (id : Msgid) (method : Bytes)
    (params : List Object) : Prop where
  asked : c.asked r = some (method, params)
  unregistered : c.idOf r = none
  unused : id ∉ c.requests
  requests : d.requests = c.requests.insert id r
  idOf_self : d.idOf r = some id
  idOf_ne : ∀ r', r' ≠ r → d.idOf r' = c.idOf r'
  completion : d.completion = c.completion
  sent : sent c d = [packRequest id method params]

/-- What an event of the client by itself does to the requests, and the messages it
writes. -/
inductive Effect (e : UserEvent H) (c d : Client H) : List MessageData → Prop where
  | rests (same : Untouched c d) : Effect e c d []
  | notifies (same : Untouched c d) (call : PackableCall) (he : e = .notify call) :
      Effect e c d [packNotification call.method call.params]
  | registers {r : Nat} {id : Msgid} {method : Bytes} {params : List Object}
      (h : Registers c d r id method params) : Effect e c d [packRequest id method params]
  | fails {r : Nat} {m : Msgid} {error : ErrorInfo} (hfails : ¬ e.Succeeds)
      (herror : error.hasError = true) (entry : c.requests.lookup m = some r)
      (requests : d.requests = c.requests.erase m) (idOf : d.idOf = c.idOf)
      (pending : c.completion r = none) (failed : d.completion r = some (error, {}))
      (others : ∀ r', r' ≠ r → d.completion r' = c.completion r') : Effect e c d []

/-- Whatever a call asks for after the event, it asked for before, or the event is that
call. -/
def AsksFor (e : UserEvent H) (c d : Client H) : Prop :=
  ∀ r q, d.asked r = some q →
    c.asked r = some q ∨ ∃ call, e = .asyncRequest call ∧ q = (call.method, call.params)

theorem AsksFor.of_eq {e : UserEvent H} (h : ∀ r, d.asked r = c.asked r) : AsksFor e c d := by
  intro r q hq
  rw [h] at hq
  exact .inl hq

theorem asksFor_call (c : Client H) (call : PackableCall) (n : Msgid) {p : CallPhase} :
    AsksFor (.asyncRequest call) c { c with
      calls := c.calls ++ [{ method := call.method, params := call.params, phase := p }]
      nextMsgid := n } := by
  intro r q hq
  rcases Nat.lt_trichotomy r c.calls.length with hr | hr | hr
  · left
    simpa [asked, List.getElem?_append_left hr] using hq
  · right
    exact ⟨call, rfl, by simpa [asked, hr, eq_comm] using hq⟩
  · rw [asked, List.getElem?_eq_none (by simp; omega)] at hq
    cases hq

/-! ## The client by itself -/

theorem completion_of_future (h : d.future = c.future) : d.completion = c.completion := by
  funext r
  rw [completion, completion, h]

theorem registers_enroll {call : Call H} {candidate : Msgid} (hcall : c.calls[r]? = some call)
    (hr : c.phase r = some (.fetched candidate)) (hunused : candidate ∉ c.requests) :
    Registers c (c.enroll r candidate (packRequest candidate call.method call.params)) r candidate
      call.method call.params where
  asked := by simp [asked, hcall]
  unregistered := by simp only [idOf, hr]
  unused := hunused
  requests := rfl
  idOf_self := idOf_enroll_self hr _
  idOf_ne r' hne := idOf_enroll_ne hne _
  completion := completion_of_future (future_enroll _)
  sent := by simp [sent, enroll, doWriteRequest, setPhase]

/-- Moving a call that has not registered to another such phase touches no request. -/
theorem untouched_setPhase {p q : CallPhase} (hr : c.phase r = some p)
    (hp : ∀ m, p ≠ .registered m) (hq : ∀ m, q ≠ .registered m) :
    Untouched c (c.setPhase r q) where
  requests := rfl
  idOf := idOf_setPhase hr hp hq
  completion := completion_of_future (funext fun _ => future_setPhase q)

/-- **A failed write** fails the request that it was for, if that is pending. -/
theorem effect_writeError (h : c.Inv) {i : Nat} {w : Write} {m : Msgid} {error : ErrorInfo}
    (hw : c.writes[i]? = some w) (herror : error.hasError = true) {e : UserEvent H}
    (hfails : ¬ e.Succeeds)
    (hd : d = escape (onWriteError { c with writes := c.writes.eraseIdx i } m error)) :
    Effect e c d [] ∧ d.writes.length ≤ c.writes.length ∧ SameReading c d ∧
      ∀ r, d.asked r = c.asked r := by
  have hinv := (h.eraseWrite hw).1
  have hle : (c.writes.eraseIdx i).length ≤ c.writes.length := List.length_eraseIdx_le ..
  obtain ⟨thrown, hesc⟩ :=
    escape_eq (onWriteError { c with writes := c.writes.eraseIdx i } m error)
  rw [hesc] at hd
  rcases hinv.onWriteError_cases m error with ⟨-, heq⟩ | ⟨-, heq⟩ | ⟨r, t, hr, hs, heq⟩
  · rw [heq] at hd
    subst hd
    exact ⟨.rests ⟨rfl, rfl, rfl⟩, hle, ⟨rfl, rfl, rfl⟩, fun _ => rfl⟩
  · rw [heq] at hd
    subst hd
    exact ⟨.rests ⟨rfl, rfl, rfl⟩, hle, ⟨rfl, rfl, rfl⟩, fun _ => rfl⟩
  · rw [heq] at hd
    subst hd
    have hframe := hs.frame
    refine ⟨.fails hfails herror hr (congrArg (AList.erase m) hs.requests) (funext hs.idOf)
      (hs.settled r (by simp)).1 (hs.settled r (by simp)).2 ?_, ?_, ?_, hs.asked⟩
    · intro r' hne
      exact hs.completion_of_notMem (by simpa using hne)
    · rw [hframe]
      exact hle
    · rw [hframe]
      exact ⟨rfl, rfl, rfl⟩

/-- **A step of the client by itself.** -/
theorem effect_user (h : c.Inv) {e : UserEvent H} (he : c.step e.toClient = some d) :
    Effect e c d (sent c d) ∧ AsksFor e c d ∧ SameReading c d := by
  have hnone : ∀ {d : Client H}, d.writes.length ≤ c.writes.length → Untouched c d →
      Effect e c d (sent c d) := by
    intro d hle same
    rw [sent_of_le hle]
    exact .rests same
  cases e with
  | asyncRequest call =>
    cases he
    refine ⟨hnone (Nat.le_refl _) ⟨rfl, idOf_addCall _ rfl, ?_⟩, asksFor_call c call _,
      rfl, rfl, rfl⟩
    exact completion_of_future (future_addCall _ rfl)
  | fetch r =>
    obtain ⟨hr, rfl⟩ := step_fetch he
    have same := untouched_setPhase (q := .fetched c.nextMsgid) hr (by simp) (by simp)
    exact ⟨hnone (Nat.le_refl _) ⟨same.requests, same.idOf, same.completion⟩,
      .of_eq fun _ => asked_setPhase _, rfl, rfl, rfl⟩
  | register r =>
    obtain ⟨call, candidate, hcall, hr, rfl | ⟨hunused, rfl⟩⟩ := step_register he
    · exact ⟨hnone (Nat.le_refl _) (untouched_setPhase hr (by simp) (by simp)),
        .of_eq fun _ => asked_setPhase _, rfl, rfl, rfl⟩
    · have hreg := registers_enroll hcall hr hunused
      refine ⟨?_, .of_eq fun _ => asked_setPhase _, rfl, rfl, rfl⟩
      rw [hreg.sent]
      exact .registers hreg
  | setHandler r handler =>
    obtain ⟨m, hr, rfl | ⟨future, hf, rfl⟩⟩ := step_setHandler he
    · exact ⟨hnone (Nat.le_refl _) ⟨rfl, rfl, rfl⟩, .of_eq fun _ => rfl, rfl, rfl, rfl⟩
    · refine ⟨hnone (Nat.le_refl _) ⟨rfl, funext fun _ => idOf_setFuture _, ?_⟩,
        .of_eq fun _ => asked_setFuture _, rfl, rfl, rfl⟩
      exact completion_setHandler (h.wf r) hr hf
  | notify call =>
    cases he
    refine ⟨?_, .of_eq fun _ => rfl, rfl, rfl, rfl⟩
    have hsent : sent c
        { c with writes := c.writes ++ [⟨none, packNotification call.method call.params⟩] } =
          [packNotification call.method call.params] := by
      simp [sent]
    rw [hsent]
    refine .notifies ?_ call rfl
    exact ⟨rfl, rfl, rfl⟩
  | writeDone i error =>
    obtain ⟨w, base, hw, rfl, rfl | ⟨m, -, herror, rfl⟩⟩ := step_writeDone he
    · exact ⟨hnone (List.length_eraseIdx_le ..) ⟨rfl, rfl, rfl⟩, .of_eq fun _ => rfl, rfl, rfl,
        rfl⟩
    · have hfails : ¬ (UserEvent.writeDone i error : UserEvent H).Succeeds := by
        simp [UserEvent.Succeeds, herror]
      obtain ⟨heffect, hle, hreading, hasked⟩ := effect_writeError h hw herror hfails rfl
      refine ⟨?_, .of_eq hasked, hreading⟩
      rw [sent_of_le hle]
      exact heffect

/-! ## A completed read -/

/-- **A read error** fails requests and completes none otherwise. -/
theorem read_error (h : c.Inv) {error : ErrorInfo} {data : MessageData} {order : List Msgid}
    (herror : error.hasError = true) (he : c.step (.readDone error data order) = some d) :
    d.requests = c.requests ∧ d.idOf = c.idOf ∧ (∀ r, d.asked r = c.asked r) ∧
      d.reads = c.reads - 1 ∧ d.readFailed = true ∧ d.caught = c.caught ∧
      ∀ r, d.completion r = c.completion r ∨ d.completion r = some (error, {}) := by
  obtain ⟨ho, base, hbase, hd⟩ := step_readDone he
  have hinv : base.Inv := hbase ▸ h.transport _ _ _
  have hob : order.Perm base.requests.keys := by rw [hbase]; exact ho
  obtain ⟨done, hs, -⟩ := hinv.broadcast error hob
  rw [if_pos herror, onRead_error herror] at hd
  obtain ⟨thrown, hesc⟩ := escape_eq (base.broadcast error order)
  rw [hesc] at hd
  have hframe := hs.frame
  subst hd
  have hcompletion : ∀ r, (base.broadcast error order).1.completion r = c.completion r ∨
      (base.broadcast error order).1.completion r = some (error, {}) := by
    intro r
    by_cases hr : r ∈ done
    · exact .inr (hs.settled r hr).2
    · refine .inl ((hs.completion_of_notMem hr).trans ?_)
      rw [hbase]
      rfl
  refine ⟨hs.requests.trans (by rw [hbase]), (funext hs.idOf).trans (by rw [hbase]; rfl), ?_, ?_,
    ?_, ?_, hcompletion⟩
  · intro r
    exact (hs.asked r).trans (by rw [hbase]; rfl)
  · rw [hframe, hbase]
  · rw [hframe, hbase]
    simp [herror]
  · rw [hframe, hbase]

/-- **A response** whose request is not completed completes that request, if there is one,
and touches no other. -/
theorem read_response (h : c.Inv) {data : MessageData} {msg : Message} {order : List Msgid}
    (hd : IsResponse data msg)
    (hpending : ∀ r, c.requests.lookup msg.msgid = some r → c.completion r = none)
    (he : c.step (.readDone {} data order) = some d) :
    d.requests = c.requests ∧ d.idOf = c.idOf ∧ (∀ r, d.asked r = c.asked r) ∧
      SameReading c d ∧
      (∀ r, c.requests.lookup msg.msgid = some r → d.completion r = some ({}, msg)) ∧
      ∀ r, c.requests.lookup msg.msgid ≠ some r → d.completion r = c.completion r := by
  obtain ⟨ho, base, hbase, hd'⟩ := step_readDone he
  have hreads : 0 < c.reads := by
    by_contra hzero
    simp [step, hzero] at he
  have hinv : base.Inv := hbase ▸ h.transport _ _ _
  rw [if_neg (by simp)] at hd'
  cases hlook : c.requests.lookup msg.msgid with
  | none =>
    rw [onRead_unknown ErrorInfo.hasError_default hd (by rw [hbase]; exact hlook)] at hd'
    have heq : d = base.doRead := hd'
    rw [heq, hbase]
    refine ⟨rfl, rfl, fun _ => rfl, ⟨?_, by simp [doRead], rfl⟩, ?_, fun _ _ => rfl⟩
    swap
    · intro r hr
      cases hr
    show c.reads - 1 + 1 = c.reads
    omega
  | some r =>
    obtain ⟨hs, hnone⟩ := hinv.onRead_pending ErrorInfo.hasError_default hd
      (by rw [hbase]; exact hlook) (by rw [hbase]; exact hpending r hlook) order
    -- nothing is thrown, so the transport sees nothing
    have heq : d = (base.onRead {} data order).1 := by
      rw [hd']
      generalize base.onRead {} data order = out at hnone
      obtain ⟨u, ex⟩ := out
      cases hnone
      rfl
    rw [← heq] at hs
    have hframe := hs.frame
    refine ⟨hs.requests.trans (by rw [hbase]; rfl), (funext hs.idOf).trans (by rw [hbase]; rfl),
      ?_, ⟨?_, ?_, ?_⟩, ?_, ?_⟩
    · intro r'
      exact (hs.asked r').trans (by rw [hbase]; rfl)
    · rw [hframe, hbase]
      show c.reads - 1 + 1 = c.reads
      omega
    · rw [hframe, hbase]
      simp [doRead]
    · rw [hframe, hbase]
      rfl
    · intro r' hr
      cases hr
      exact (hs.settled r (by simp)).2
    · intro r' hr
      have hne : r' ≠ r := fun heq => hr (by rw [heq])
      refine (hs.completion_of_notMem (by simpa using hne)).trans ?_
      rw [hbase]
      rfl

end Client

end MpRpc
