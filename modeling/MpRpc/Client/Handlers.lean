import MpRpc.Client.Invariant
import MpRpc.ResponseFuture.HandOver

/-!
# Handlers — whose handler a cell has

The client never looks at a handler. Every function of the client leaves the handler of a
cell as it is, whether it waits in the cell or has been posted, except for `set_handler`,
which gives a cell without a handler the one that it is called with.
-/

namespace MpRpc

variable {H : Type*}

namespace ResponseFutureData

variable {d d' : ResponseFutureData H} {handler : Option H} {value : Option (ErrorInfo × Message)}

/-- The value of a cell is what it was completed with. -/
theorem Holds.completion (h : d.Holds handler value) : d.completion = value := by
  have hposted := h.posted
  have hkept := h.kept
  cases value with
  | none => simp [ResponseFutureData.completion, h.hasResponse]
  | some v =>
    cases handler with
    | none => simpa [ResponseFutureData.completion, h.hasResponse, hposted, posting] using hkept rfl
    | some f => simp [ResponseFutureData.completion, h.hasResponse, hposted, posting]

theorem Holds.of_setError (h : d.Holds handler value) {error : ErrorInfo}
    (hset : d.setError error = .ok d') : d'.Holds handler (some (error, {})) := by
  cases value with
  | none =>
    obtain ⟨d'', hd'', hholds⟩ := h.setError error
    cases hset.symm.trans hd''
    exact hholds
  | some v => simp [ResponseFutureData.setError, ResponseFutureData.settle, h.hasResponse] at hset

theorem Holds.of_setResponse (h : d.Holds handler value) {msg : Message}
    (hset : d.setResponse msg = .ok d') : d'.Holds handler (some ({}, msg)) := by
  cases value with
  | none =>
    obtain ⟨d'', hd'', hholds⟩ := h.setResponse msg
    cases hset.symm.trans hd''
    exact hholds
  | some v =>
    simp [ResponseFutureData.setResponse, ResponseFutureData.settle, h.hasResponse] at hset

end ResponseFutureData

namespace Client

open ResponseFutureData

variable {s t : Client H} {r : Nat} {owner : Nat → Option H}

/-- The handler of the cell of call `r` is `owner r`. -/
def Owned (owner : Nat → Option H) (s : Client H) : Prop :=
  ∀ r, ∃ value, (s.future r).Holds (owner r) value

theorem owned_init : Owned (fun _ => none) ({} : Client H) := fun _ => ⟨none, holds_default⟩

theorem Owned.of_future (h : s.Owned owner) (hsame : t.future = s.future) : t.Owned owner := by
  intro r
  rw [hsame]
  exact h r

theorem Owned.of_calls (h : s.Owned owner) (hcalls : t.calls = s.calls) : t.Owned owner :=
  h.of_future (funext fun r => by simp only [future, hcalls])

/-- The cells of the other calls are the same. -/
theorem Owned.setFuture (h : s.Owned owner) {d : ResponseFutureData H}
    {value : Option (ErrorInfo × Message)} (hd : d.Holds (owner r) value) :
    (s.setFuture r d).Owned owner := by
  intro r'
  by_cases hr : r' = r
  · subst hr
    cases hcall : s.calls[r']? with
    | none =>
      have hsame : (s.setFuture r' d).future r' = s.future r' := by
        simp [future, Client.setFuture, hcall]
      rw [hsame]
      exact h r'
    | some c =>
      have hself : (s.setFuture r' d).future r' = d := by simp [future, Client.setFuture, hcall]
      rw [hself]
      exact ⟨value, hd⟩
  · rw [future_setFuture_ne d hr]
    exact h r'

theorem Owned.setErrorAll (error : ErrorInfo) (rs : List Nat) (h : s.Owned owner) :
    (setErrorAll error rs s).1.Owned owner := by
  induction rs generalizing s with
  | nil => exact h
  | cons r rs ih =>
    obtain ⟨value, hholds⟩ := h r
    cases hset : (s.future r).setError error with
    | error info => simpa only [Client.setErrorAll, hset] using h
    | ok d =>
      simp only [Client.setErrorAll, hset]
      exact ih (h.setFuture (hholds.of_setError hset))

theorem Owned.onWriteError (m : Msgid) (error : ErrorInfo) (h : s.Owned owner) :
    (s.onWriteError m error).1.Owned owner := by
  unfold Client.onWriteError
  split
  · exact h
  · rename_i r _
    obtain ⟨value, hholds⟩ := h r
    split
    · exact h
    · rename_i d hset
      exact (h.setFuture (hholds.of_setError hset)).of_calls rfl

theorem Owned.receive {data : MessageData} (h : s.Owned owner) (hr : s.receive data = .ok t) :
    t.Owned owner := by
  unfold Client.receive at hr
  split at hr
  · cases hr
  · split at hr
    · cases hr
    · split at hr
      · cases hr
        exact h
      · rename_i r _
        obtain ⟨value, hholds⟩ := h r
        split at hr
        · cases hr
        · rename_i d hset
          cases hr
          exact h.setFuture (hholds.of_setResponse hset)

theorem Owned.onRead (error : ErrorInfo) (data : MessageData) (order : List Msgid)
    (h : s.Owned owner) : (s.onRead error data order).1.Owned owner := by
  have hread : s.doRead.Owned owner := h.of_calls rfl
  unfold Client.onRead
  split
  · exact h.setErrorAll error _
  · split
    · rename_i t hreceive
      exact hread.receive hreceive
    · exact hread.setErrorAll error _
    · exact hread

theorem Owned.escape {out : Client H × Option StdException} (h : out.1.Owned owner) :
    (escape out).Owned owner := by
  obtain ⟨thrown, heq⟩ := escape_eq out
  rw [heq]
  exact h.of_calls rfl

theorem Owned.escapeToTransport {out : Client H × Option StdException} (h : out.1.Owned owner) :
    (escapeToTransport out).Owned owner := by
  obtain ⟨thrown, caught, heq⟩ := escapeToTransport_eq out
  rw [heq]
  exact h.of_calls rfl

/-- **A handler is set** on a cell that has none; one that has a handler keeps it. -/
theorem Owned.setHandler (h : s.Owned owner) {handler : H}
    (he : s.step (.setHandler r handler) = some t) :
    t.Owned (if owner r = none then Function.update owner r (some handler) else owner) := by
  obtain ⟨value, hholds⟩ := h r
  obtain ⟨m, hid, hcases⟩ := step_setHandler he
  cases howner : owner r with
  | none =>
    rw [howner] at hholds
    obtain ⟨d, hset, hd⟩ := hholds.setHandler handler
    rw [if_pos rfl]
    have ht : t = s.setFuture r d := by
      simp only [step, hid, hset, Option.some.injEq] at he
      exact he.symm
    subst ht
    intro r'
    by_cases hr : r' = r
    · subst hr
      rw [Function.update_self, future_setFuture_self d (phase_of_idOf hid)]
      exact ⟨value, hd⟩
    · rw [Function.update_of_ne hr, future_setFuture_ne d hr]
      exact h r'
  | some f =>
    rw [if_neg (Option.some_ne_none f)]
    rcases hcases with rfl | ⟨d, hset, rfl⟩
    · exact h
    · rw [howner] at hholds
      simp [ResponseFutureData.setHandler, hholds.hasHandler] at hset

/-- **No other step touches a handler.** -/
theorem Owned.step (h : s.Owned owner) {e : Event H} (he : s.step e = some t)
    (hset : ∀ r handler, e ≠ .setHandler r handler) : t.Owned owner := by
  cases e with
  | start =>
    cases he
    exact h.of_calls rfl
  | call method params =>
    cases he
    exact h.of_future (future_addCall _ rfl)
  | fetch r =>
    obtain ⟨-, rfl⟩ := step_fetch he
    exact h.of_future (funext fun _ => future_setPhase _)
  | register r =>
    obtain ⟨c, candidate, -, -, rfl | ⟨-, rfl⟩⟩ := step_register he
    · exact h.of_future (funext fun _ => future_setPhase _)
    · exact h.of_future (future_enroll _)
  | setHandler r handler => exact absurd rfl (hset r handler)
  | notify method params =>
    cases he
    exact h.of_calls rfl
  | writeDone i error =>
    obtain ⟨w, base, -, hbase, hcases⟩ := step_writeDone he
    have hsame : base.Owned owner := h.of_calls (by rw [hbase])
    rcases hcases with rfl | ⟨m, -, -, rfl⟩
    · exact hsame
    · exact (hsame.onWriteError m error).escape
  | readDone error data order =>
    obtain ⟨-, base, hbase, rfl⟩ := step_readDone he
    have hsame : base.Owned owner := h.of_calls (by rw [hbase])
    split
    · exact (hsame.onRead error data order).escape
    · exact (hsame.onRead error data order).escapeToTransport
  | readAgain order =>
    obtain ⟨-, info, caught, base, -, hbase, rfl⟩ := step_readAgain he
    have hsame : base.Owned owner := h.of_calls (by rw [hbase])
    exact (hsame.onRead info [] order).escape

end Client

end MpRpc
