import Mathlib
import MpRpc.Machine

/-!
# Shutdown — the hand-shake of `tcp_session::shutdown` and `tcp_connector::shutdown`

`shutdown` puts a promise on its stack, posts a closure that refers to it to the strand of
the socket, and waits for at most 100 ms. The closure runs when a worker of the pool gets
to it, which may be long after the wait has timed out and the promise is gone. Outside
threads call `shutdown`, and so does the function that `async_remove_session` posts to the
pool, with the mutex of the server locked: there the call itself keeps a worker busy.
-/

namespace MpRpc.Transport.Shutdown

/-- Which of the two classes a socket belongs to. -/
inductive Kind where
  | session
  | connector
deriving DecidableEq, Repr

/-- A socket with its `stream_socket_helper`. -/
structure Socket where
  kind : Kind
  closed : Bool := false
  /-- whether the helper exists, to which the closure has a weak pointer -/
  helper : Bool := true
deriving DecidableEq, Repr

/-- How far the closure is. -/
inductive Closure where
  | posted
  | begun
  /-- the helper is locked and the message is logged; `set_value` is next -/
  | ready
  /-- `set_value` has been performed -/
  | performed
  | done
deriving DecidableEq, Repr

/-- `set_value` is still to come. -/
def Closure.pending : Closure → Bool
  | .posted => true
  | .begun => true
  | .ready => true
  | _ => false

/-- A call of `shutdown` with its promise and its closure. -/
structure Call where
  socket : Nat
  /-- the worker whose task has called, unless it was an outside thread -/
  caller : Option Nat
  closure : Closure := .posted
  /-- the promise has its value -/
  value : Bool := false
  /-- the call has returned, and the promise is gone -/
  returned : Bool := false
deriving DecidableEq, Repr

/-- What a worker of the pool does. -/
inductive Worker where
  | idle
  /-- in the function of `async_remove_session`, in front of the mutex -/
  | locking (socket : Nat)
  /-- in that function, in the call of `shutdown` -/
  | inShutdown (call : Nat)
  /-- in another handler on the strand of the socket -/
  | handler (socket : Nat)
  /-- in the closure of the call -/
  | closure (call : Nat)
  /-- an exception has ended the thread -/
  | ended
deriving DecidableEq, Repr

/-- The sockets, the pool, the functions posted by `async_remove_session`, the holder of
the mutex, the calls, and each `set_value` with whether the promise was there. -/
structure State where
  sockets : List Socket
  workers : List Worker
  removals : List Nat := []
  holder : Option Nat := none
  calls : List Call := []
  log : List (Nat × Bool) := []
deriving DecidableEq, Repr

namespace State

def setWorker (s : State) (w : Nat) (x : Worker) : State := { s with workers := s.workers.set w x }

def setCall (s : State) (k : Nat) (x : Call) : State := { s with calls := s.calls.set k x }

/-- The beginning of `shutdown`: the closure is posted. -/
def shutdown (s : State) (socket : Nat) (caller : Option Nat) : State :=
  { s with calls := s.calls ++ [{ socket, caller }] }

/-- The end of `shutdown`. The function of `async_remove_session` erases the session and
unlocks the mutex. -/
def returns (s : State) (k : Nat) (call : Call) : State :=
  let s := s.setCall k { call with returned := true }
  match call.caller with
  | none => s
  | some w => { s with holder := none }.setWorker w .idle

/-- The strand that the worker runs on. -/
def strand (s : State) : Worker → Option Nat
  | .handler socket => some socket
  | .closure k => (s.calls[k]?).map Call.socket
  | _ => none

/-- No worker runs on the strand. -/
def strandFree (s : State) (socket : Nat) : Bool :=
  s.workers.all fun x => s.strand x ≠ some socket

/-- The closures of earlier calls for the socket have begun: a strand keeps the order. -/
def nextOnStrand (s : State) (k socket : Nat) : Bool :=
  (s.calls.take k).all fun c => c.socket ≠ socket ∨ c.closure ≠ .posted

/-- A step of the closure that worker `w` is in. -/
def inClosure (s : State) (w : Nat) (phase : Closure) (f : Nat → Call → Option State) :
    Option State :=
  match s.workers[w]? with
  | some (.closure k) =>
      match s.calls[k]? with
      | some call => if call.closure = phase then f k call else none
      | none => none
  | _ => none

end State

/-- What happens in the pool and to the calls. -/
inductive Event where
  /-- `async_remove_session` posts its function -/
  | post (socket : Nat)
  /-- an outside thread calls `shutdown` -/
  | call (socket : Nat)
  /-- a worker takes the first function of `async_remove_session` -/
  | take (w : Nat)
  /-- it locks the mutex and calls `shutdown` -/
  | acquire (w : Nat)
  /-- a worker begins another handler on a strand -/
  | handler (w socket : Nat)
  | handlerDone (w : Nat) (thrown : Bool)
  /-- a worker begins the closure of call `k` -/
  | enter (w k : Nat)
  /-- the closure locks the helper, and logs the endpoint -/
  | endpoint (w : Nat) (thrown : Bool)
  | setValue (w : Nat)
  /-- the closure shuts the socket down and closes it -/
  | close (w : Nat) (thrown : Bool)
  /-- the wait of call `k` ends because the promise has its value -/
  | signalled (k : Nat)
  /-- the wait of call `k` ends after 100 ms -/
  | timedOut (k : Nat)
  /-- the helper is destroyed -/
  | drop (socket : Nat)
deriving DecidableEq, Repr

open State

/-- `remote_endpoint` throws for a connection that is gone, and both functions do for a
socket that is closed. -/
def stepEndpoint (s : State) (w : Nat) (thrown : Bool) (k : Nat) (call : Call) : Option State :=
  match s.sockets[call.socket]? with
  | none => none
  | some socket =>
      if socket.helper = false then
        some ((s.setCall k { call with closure := .done }).setWorker w .idle)
      else if thrown then
        if socket.closed = true ∨ socket.kind = .session then
          some ((s.setCall k { call with closure := .done }).setWorker w .ended)
        else none
      else if socket.closed = true then none
      else some (s.setCall k { call with closure := .ready })

/-- An exception of `socket.shutdown` leaves the socket open. -/
def stepClose (s : State) (w : Nat) (thrown : Bool) (k : Nat) (call : Call) : State :=
  let s := s.setCall k { call with closure := .done }
  if thrown then s.setWorker w .ended
  else
    { s with
      sockets := s.sockets.modify call.socket fun x => { x with closed := true } }.setWorker w .idle

def step (s : State) : Event → Option State
  | .post socket => some { s with removals := s.removals ++ [socket] }
  | .call socket => some (s.shutdown socket none)
  | .take w =>
      match s.removals with
      | [] => none
      | socket :: rest =>
          if s.workers[w]? = some .idle then
            some ({ s with removals := rest }.setWorker w (.locking socket))
          else none
  | .acquire w =>
      match s.workers[w]? with
      | some (.locking socket) =>
          if s.holder = none then
            some (({ s with holder := some w }.setWorker w (.inShutdown s.calls.length)).shutdown
              socket (some w))
          else none
      | _ => none
  | .handler w socket =>
      if s.workers[w]? = some .idle ∧ s.strandFree socket = true then
        some (s.setWorker w (.handler socket))
      else none
  | .handlerDone w thrown =>
      match s.workers[w]? with
      | some (.handler _) => some (s.setWorker w (if thrown then .ended else .idle))
      | _ => none
  | .enter w k =>
      match s.calls[k]? with
      | none => none
      | some call =>
          if s.workers[w]? = some .idle ∧ call.closure = .posted ∧
              s.strandFree call.socket = true ∧ s.nextOnStrand k call.socket = true then
            some ((s.setCall k { call with closure := .begun }).setWorker w (.closure k))
          else none
  | .endpoint w thrown => s.inClosure w .begun (stepEndpoint s w thrown)
  | .setValue w =>
      s.inClosure w .ready fun k call =>
        some { s.setCall k { call with closure := .performed, value := true } with
          log := s.log ++ [(k, !call.returned)] }
  | .close w thrown => s.inClosure w .performed fun k call => some (stepClose s w thrown k call)
  | .signalled k =>
      match s.calls[k]? with
      | none => none
      | some call =>
          if call.returned = false ∧ call.value = true then some (s.returns k call) else none
  | .timedOut k =>
      match s.calls[k]? with
      | none => none
      | some call => if call.returned = false then some (s.returns k call) else none
  | .drop socket =>
      -- a call that has not returned keeps its socket's owner
      if s.calls.all (fun c => c.socket ≠ socket ∨ c.returned = true) then
        some { s with
          sockets := s.sockets.modify socket fun x => { x with helper := false } }
      else none

/-- A pool of `workers` threads and some sockets. -/
def machine (workers : Nat) (sockets : List Socket) : Machine State Event where
  init := { sockets, workers := List.replicate workers .idle }
  step := step

/-- Each `set_value` was performed while the call that owns the promise had not returned. -/
def State.Safe (s : State) : Prop := ∀ entry ∈ s.log, entry.2 = true

/-- The wait does not time out before the closure has performed `set_value`, or has ended
without. -/
def WaitsLongEnough (s : State) : Event → Prop
  | .timedOut k => ∀ call, s.calls[k]? = some call → call.closure.pending = false
  | _ => True

/-! ## What a step does to the calls -/

variable {s t : State} {e : Event}

theorem getElem?_set_of_some {α : Type*} {l : List α} {k j : Nat} {x : α} (h : l[k]? = some x)
    (y : α) : (l.set k y)[j]? = if j = k then some y else l[j]? := by
  obtain ⟨hlt, -⟩ := List.getElem?_eq_some_iff.mp h
  rw [List.getElem?_set]
  by_cases hjk : j = k
  · rw [if_pos hjk, if_pos hjk.symm, if_pos hlt]
  · rw [if_neg hjk, if_neg (Ne.symm hjk)]

theorem inClosure_eq_some {w : Nat} {phase : Closure} {f : Nat → Call → Option State}
    (h : s.inClosure w phase f = some t) :
    ∃ k call, s.workers[w]? = some (.closure k) ∧ s.calls[k]? = some call ∧
      call.closure = phase ∧ f k call = some t := by
  unfold inClosure at h
  split at h
  · rename_i k hworker
    split at h
    · rename_i call hcall
      split at h
      · rename_i hphase
        exact ⟨k, call, hworker, hcall, hphase, h⟩
      · cases h
    · cases h
  · cases h

/-- The possible effects of a step on the calls and on the log. -/
inductive Effect (s : State) (e : Event) (t : State) : Prop where
  | same (calls : t.calls = s.calls) (log : t.log = s.log)
  | fresh (socket : Nat) (caller : Option Nat)
      (calls : t.calls = s.calls ++ [({ socket := socket, caller := caller } : Call)])
      (log : t.log = s.log)
  | closure (k : Nat) (call : Call) (phase : Closure) (before : s.calls[k]? = some call)
      (forward : phase.pending = true → call.closure.pending = true)
      (calls : t.calls = s.calls.set k { call with closure := phase }) (log : t.log = s.log)
  | value (k : Nat) (call : Call) (before : s.calls[k]? = some call)
      (ready : call.closure = .ready)
      (calls : t.calls = s.calls.set k { call with closure := .performed, value := true })
      (log : t.log = s.log ++ [(k, !call.returned)])
  | returned (k : Nat) (call : Call) (before : s.calls[k]? = some call)
      (cause : call.value = true ∨ e = .timedOut k)
      (calls : t.calls = s.calls.set k { call with returned := true }) (log : t.log = s.log)

theorem calls_returns (s : State) (k : Nat) (call : Call) :
    (s.returns k call).calls = s.calls.set k { call with returned := true } ∧
      (s.returns k call).log = s.log := by
  unfold State.returns
  cases call.caller with
  | none => exact ⟨rfl, rfl⟩
  | some w => exact ⟨rfl, rfl⟩

/-- **Every step** has one of the effects. -/
theorem effect_of_step (hstep : step s e = some t) : Effect s e t := by
  cases e with
  | post socket =>
    cases hstep
    exact .same rfl rfl
  | call socket =>
    cases hstep
    exact .fresh socket none rfl rfl
  | take w =>
    simp only [step] at hstep
    split at hstep
    · cases hstep
    · simp only [Option.ite_none_right_eq_some, Option.some.injEq] at hstep
      rw [← hstep.2]
      exact .same rfl rfl
  | acquire w =>
    simp only [step] at hstep
    split at hstep
    · simp only [Option.ite_none_right_eq_some, Option.some.injEq] at hstep
      rw [← hstep.2]
      exact .fresh _ (some w) rfl rfl
    · cases hstep
  | handler w socket =>
    simp only [step, Option.ite_none_right_eq_some, Option.some.injEq] at hstep
    rw [← hstep.2]
    exact .same rfl rfl
  | handlerDone w thrown =>
    simp only [step] at hstep
    split at hstep
    · cases hstep
      exact .same rfl rfl
    · cases hstep
  | enter w k =>
    simp only [step] at hstep
    split at hstep
    · cases hstep
    · rename_i call hcall
      simp only [Option.ite_none_right_eq_some, Option.some.injEq] at hstep
      obtain ⟨⟨-, hposted, -⟩, ht⟩ := hstep
      rw [← ht]
      exact .closure k call .begun hcall (fun _ => by rw [hposted]; rfl) rfl rfl
  | endpoint w thrown =>
    obtain ⟨k, call, -, hcall, hbegun, ht⟩ := inClosure_eq_some hstep
    have hpending : call.closure.pending = true := by rw [hbegun]; rfl
    unfold stepEndpoint at ht
    split at ht
    · cases ht
    · split at ht
      · cases ht
        exact .closure k call .done hcall (fun _ => hpending) rfl rfl
      · split at ht
        · split at ht
          · cases ht
            exact .closure k call .done hcall (fun _ => hpending) rfl rfl
          · cases ht
        · split at ht
          · cases ht
          · cases ht
            exact .closure k call .ready hcall (fun _ => hpending) rfl rfl
  | setValue w =>
    obtain ⟨k, call, -, hcall, hready, ht⟩ := inClosure_eq_some hstep
    cases ht
    exact .value k call hcall hready rfl rfl
  | close w thrown =>
    obtain ⟨k, call, -, hcall, -, ht⟩ := inClosure_eq_some hstep
    cases ht
    cases thrown with
    | false => exact .closure k call .done hcall (fun hdone => by cases hdone) rfl rfl
    | true => exact .closure k call .done hcall (fun hdone => by cases hdone) rfl rfl
  | signalled k =>
    simp only [step] at hstep
    split at hstep
    · cases hstep
    · rename_i call hcall
      simp only [Option.ite_none_right_eq_some, Option.some.injEq] at hstep
      obtain ⟨⟨-, hvalue⟩, ht⟩ := hstep
      obtain ⟨hcalls, hlog⟩ := calls_returns s k call
      rw [ht] at hcalls hlog
      exact .returned k call hcall (.inl hvalue) hcalls hlog
  | timedOut k =>
    simp only [step] at hstep
    split at hstep
    · cases hstep
    · rename_i call hcall
      simp only [Option.ite_none_right_eq_some, Option.some.injEq] at hstep
      obtain ⟨hcalls, hlog⟩ := calls_returns s k call
      rw [hstep.2] at hcalls hlog
      exact .returned k call hcall (.inr rfl) hcalls hlog
  | drop socket =>
    simp only [step, Option.ite_none_right_eq_some, Option.some.injEq] at hstep
    rw [← hstep.2]
    exact .same rfl rfl

/-! ## Waits that are long enough -/

/-- A promise that has its value or is gone is one that the closure does not touch any
more. -/
structure State.Inv (s : State) : Prop where
  calls : ∀ (k : Nat) (call : Call), s.calls[k]? = some call →
    call.returned = true ∨ call.value = true →
    call.closure.pending = false
  safe : s.Safe

/-- A call in the place of another. -/
theorem State.Inv.set {k : Nat} {call call' : Call} (hinv : s.Inv) (hcall : s.calls[k]? = some call)
    (hcall' : call'.returned = true ∨ call'.value = true → call'.closure.pending = false)
    (hcalls : t.calls = s.calls.set k call') (hsafe : t.Safe) : t.Inv where
  calls j x hx := by
    rw [hcalls, getElem?_set_of_some hcall] at hx
    split at hx
    · cases hx
      exact hcall'
    · exact hinv.calls j x hx
  safe := hsafe

/-- **One step**, if a wait that times out was long enough. -/
theorem inv_step (hinv : s.Inv) (hwaits : WaitsLongEnough s e) (hstep : step s e = some t) :
    t.Inv := by
  have hsafe : t.log = s.log → t.Safe := by
    intro hlog
    unfold State.Safe
    rw [hlog]
    exact hinv.safe
  cases effect_of_step hstep with
  | same hcalls hlog =>
    refine ⟨?_, hsafe hlog⟩
    rw [hcalls]
    exact hinv.calls
  | fresh socket caller hcalls hlog =>
    refine ⟨?_, hsafe hlog⟩
    intro k call hcall
    rw [hcalls, List.getElem?_append] at hcall
    split at hcall
    · exact hinv.calls k call hcall
    · have hmem := List.mem_of_getElem? hcall
      rw [List.mem_singleton.mp hmem]
      intro hor
      rcases hor with hor | hor
      · cases hor
      · cases hor
  | closure k call phase hcall hforward hcalls hlog =>
    refine hinv.set hcall ?_ hcalls (hsafe hlog)
    intro hor
    have hnot := hinv.calls k call hcall hor
    show phase.pending = false
    cases hphase : phase.pending with
    | false => rfl
    | true => exact (hforward hphase).symm.trans hnot
  | value k call hcall hready hcalls hlog =>
    refine hinv.set hcall (fun _ => rfl) hcalls ?_
    intro entry hentry
    rw [hlog] at hentry
    rcases List.mem_append.mp hentry with hentry | hentry
    · exact hinv.safe entry hentry
    · rw [List.mem_singleton.mp hentry]
      show (!call.returned) = true
      cases hreturned : call.returned with
      | false => rfl
      | true =>
        have hnot := hinv.calls k call hcall (.inl hreturned)
        rw [hready] at hnot
        cases hnot
  | returned k call hcall hcause hcalls hlog =>
    refine hinv.set hcall ?_ hcalls (hsafe hlog)
    intro _
    show call.closure.pending = false
    rcases hcause with hvalue | rfl
    · exact hinv.calls k call hcall (.inr hvalue)
    · exact hwaits call hcall

theorem inv_init (workers : Nat) (sockets : List Socket) : (machine workers sockets).init.Inv where
  calls k call hcall := by cases hcall
  safe entry hentry := absurd hentry List.not_mem_nil

/-! ## A wait that is too short -/

/-- A promise that has its value is one that the closure is done with. -/
def State.Settled (s : State) : Prop :=
  ∀ (k : Nat) (call : Call), s.calls[k]? = some call → call.value = true →
    call.closure.pending = false

theorem settled_step (hs : s.Settled) (hstep : step s e = some t) : t.Settled := by
  intro k call hcall hvalue
  cases effect_of_step hstep with
  | same hcalls _ =>
    rw [hcalls] at hcall
    exact hs k call hcall hvalue
  | fresh socket caller hcalls _ =>
    rw [hcalls, List.getElem?_append] at hcall
    split at hcall
    · exact hs k call hcall hvalue
    · rw [List.mem_singleton.mp (List.mem_of_getElem? hcall)] at hvalue
      cases hvalue
  | closure j x phase hx hforward hcalls _ =>
    rw [hcalls, getElem?_set_of_some hx] at hcall
    split at hcall
    · cases hcall
      have hnot := hs j x hx hvalue
      show phase.pending = false
      cases hphase : phase.pending with
      | false => rfl
      | true => exact (hforward hphase).symm.trans hnot
    · exact hs k call hcall hvalue
  | value j x hx _ hcalls _ =>
    rw [hcalls, getElem?_set_of_some hx] at hcall
    split at hcall
    · cases hcall
      rfl
    · exact hs k call hcall hvalue
  | returned j x hx _ hcalls _ =>
    rw [hcalls, getElem?_set_of_some hx] at hcall
    split at hcall
    · cases hcall
      exact hs j x hx hvalue
    · exact hs k call hcall hvalue

/-- The call has returned, and a value of its promise comes too late. -/
def State.Late (k : Nat) (s : State) : Prop :=
  ∃ call, s.calls[k]? = some call ∧ call.returned = true ∧ (call.value = true → (k, false) ∈ s.log)

/-- **A promise that is gone stays gone.** -/
theorem late_step {k : Nat} (hlate : s.Late k) (hstep : step s e = some t) : t.Late k := by
  obtain ⟨call, hcall, hreturned, hvalue⟩ := hlate
  cases effect_of_step hstep with
  | same hcalls hlog =>
    exact ⟨call, by rw [hcalls, hcall], hreturned, by rw [hlog]; exact hvalue⟩
  | fresh socket caller hcalls hlog =>
    obtain ⟨hlt, -⟩ := List.getElem?_eq_some_iff.mp hcall
    exact ⟨call, by rw [hcalls, List.getElem?_append_left hlt, hcall], hreturned,
      by rw [hlog]; exact hvalue⟩
  | closure j x phase hx _ hcalls hlog =>
    unfold State.Late
    rw [hcalls, getElem?_set_of_some hx, hlog]
    split
    · rename_i hkj
      cases hkj
      cases hcall.symm.trans hx
      exact ⟨_, rfl, hreturned, hvalue⟩
    · exact ⟨call, hcall, hreturned, hvalue⟩
  | value j x hx _ hcalls hlog =>
    unfold State.Late
    rw [hcalls, getElem?_set_of_some hx, hlog]
    split
    · rename_i hkj
      cases hkj
      cases hcall.symm.trans hx
      refine ⟨_, rfl, hreturned, fun _ => ?_⟩
      rw [hreturned]
      exact List.mem_append_right _ List.mem_cons_self
    · exact ⟨call, hcall, hreturned, fun h => List.mem_append_left _ (hvalue h)⟩
  | returned j x hx _ hcalls hlog =>
    unfold State.Late
    rw [hcalls, getElem?_set_of_some hx, hlog]
    split
    · rename_i hkj
      cases hkj
      cases hcall.symm.trans hx
      exact ⟨_, rfl, rfl, hvalue⟩
    · exact ⟨call, hcall, hreturned, hvalue⟩

/-! ## Calls from a task of the pool -/

/-- Whether the call has returned, and who has called. -/
def Call.owner (call : Call) : Bool × Option Nat := (call.returned, call.caller)

/-- A worker is in `shutdown` as long as its call has not returned. If it is the only one,
nobody can have begun the closure. -/
structure State.Callers (workers : Nat) (s : State) : Prop where
  length : s.workers.length = workers
  waits : ∀ (k w : Nat) (call : Call), s.calls[k]? = some call → call.owner = (false, some w) →
    s.workers[w]? = some (.inShutdown k)
  calls : ∀ w k : Nat, s.workers[w]? = some (.inShutdown k) →
    ∃ call : Call, s.calls[k]? = some call ∧ call.owner = (false, some w) ∧
      (workers = 1 → call.closure = .posted ∧ call.value = false)

variable {workers : Nat}

theorem owner_set {k : Nat} {call call' : Call} (hcall : s.calls[k]? = some call)
    (howner : call'.owner = call.owner) (j : Nat) :
    ((s.calls.set k call')[j]?).map Call.owner = (s.calls[j]?).map Call.owner := by
  rw [getElem?_set_of_some hcall]
  split
  · rename_i hjk
    rw [hjk, hcall, Option.map_some, Option.map_some, howner]
  · rfl

theorem set_self {w : Nat} {x : Worker} (hx : s.workers[w]? = some x) :
    s.workers = s.workers.set w x := by
  obtain ⟨hlt, hget⟩ := List.getElem?_eq_some_iff.mp hx
  rw [← hget, List.set_getElem_self]

/-- A worker that is not in `shutdown` does something else. -/
theorem State.Callers.act (hs : s.Callers workers) {w : Nat} {x y : Worker}
    (hx : s.workers[w]? = some x) (hxnot : ∀ k, x ≠ .inShutdown k) (hynot : ∀ k, y ≠ .inShutdown k)
    (hworkers : t.workers = s.workers.set w y)
    (howner : ∀ k : Nat, (t.calls[k]?).map Call.owner = (s.calls[k]?).map Call.owner) :
    t.Callers workers where
  length := by
    rw [hworkers, List.length_set, hs.length]
  waits k v call hcall hcaller := by
    have hmap := howner k
    rw [hcall, Option.map_some, eq_comm, Option.map_eq_some_iff] at hmap
    obtain ⟨call₀, hcall₀, howner₀⟩ := hmap
    have hwaits := hs.waits k v call₀ hcall₀ (howner₀.trans hcaller)
    rw [hworkers, getElem?_set_of_some hx, if_neg]
    · exact hwaits
    · intro hvw
      rw [hvw, hx] at hwaits
      exact hxnot k (Option.some.inj hwaits)
  calls v k hv := by
    rw [hworkers, getElem?_set_of_some hx] at hv
    split at hv
    · exact absurd (Option.some.inj hv) (hynot k)
    · rename_i hvw
      obtain ⟨call₀, hcall₀, howner₀, -⟩ := hs.calls v k hv
      have hmap := howner k
      rw [hcall₀, Option.map_some, Option.map_eq_some_iff] at hmap
      obtain ⟨call, hcall, hsame⟩ := hmap
      refine ⟨call, hcall, hsame.trans howner₀, ?_⟩
      intro hone
      have hlength := hs.length
      obtain ⟨hlt, -⟩ := List.getElem?_eq_some_iff.mp hx
      obtain ⟨hlt', -⟩ := List.getElem?_eq_some_iff.mp hv
      omega

theorem State.Callers.of_eq (hs : s.Callers workers) (hworkers : t.workers = s.workers)
    (hcalls : t.calls = s.calls) : t.Callers workers := by
  refine ⟨by rw [hworkers, hs.length], ?_, ?_⟩
  · rw [hworkers, hcalls]
    exact hs.waits
  · rw [hworkers, hcalls]
    exact hs.calls

/-- An outside thread calls `shutdown`. -/
theorem State.Callers.shutdown (hs : s.Callers workers) (socket : Nat) :
    (s.shutdown socket none).Callers workers where
  length := hs.length
  waits k w call hcall hcaller := by
    change (s.calls ++ [({ socket := socket, caller := none } : Call)])[k]? = some call at hcall
    rw [List.getElem?_append] at hcall
    split at hcall
    · exact hs.waits k w call hcall hcaller
    · rw [List.mem_singleton.mp (List.mem_of_getElem? hcall)] at hcaller
      cases hcaller
  calls w k hw := by
    obtain ⟨call, hcall, hrest⟩ := hs.calls w k hw
    obtain ⟨hlt, -⟩ := List.getElem?_eq_some_iff.mp hcall
    refine ⟨call, ?_, hrest⟩
    show (s.calls ++ [_])[k]? = some call
    rw [List.getElem?_append_left hlt, hcall]

/-- A task of the pool calls `shutdown`. -/
theorem State.Callers.acquire (hs : s.Callers workers) {w : Nat} {x : Worker}
    (hx : s.workers[w]? = some x) (hxnot : ∀ k, x ≠ .inShutdown k) (socket : Nat)
    (hworkers : t.workers = s.workers.set w (.inShutdown s.calls.length))
    (hcalls : t.calls = s.calls ++ [({ socket := socket, caller := some w } : Call)]) :
    t.Callers workers where
  length := by
    rw [hworkers, List.length_set, hs.length]
  waits k v call hcall hcaller := by
    rw [hcalls, List.getElem?_append] at hcall
    rw [hworkers, getElem?_set_of_some hx]
    split at hcall
    · have hwaits := hs.waits k v call hcall hcaller
      rw [if_neg]
      · exact hwaits
      · intro hvw
        rw [hvw, hx] at hwaits
        exact hxnot k (Option.some.inj hwaits)
    · rename_i hge
      obtain ⟨hlt, hget⟩ := List.getElem?_eq_some_iff.mp hcall
      rw [List.length_singleton] at hlt
      have hk : k = s.calls.length := by omega
      rw [List.mem_singleton.mp (List.mem_of_getElem? hcall)] at hcaller
      cases hcaller
      rw [if_pos rfl, hk]
  calls v k hv := by
    rw [hworkers, getElem?_set_of_some hx] at hv
    rw [hcalls]
    split at hv
    · rename_i hvw
      cases hv
      refine ⟨{ socket := socket, caller := some w }, ?_, ?_, fun _ => ⟨rfl, rfl⟩⟩
      · rw [List.getElem?_append_right (Nat.le_refl _), Nat.sub_self]
        rfl
      · rw [hvw]
        rfl
    · rename_i hvw
      obtain ⟨call, hcall, howner, -⟩ := hs.calls v k hv
      obtain ⟨hlt, -⟩ := List.getElem?_eq_some_iff.mp hcall
      refine ⟨call, ?_, howner, ?_⟩
      · rw [List.getElem?_append_left hlt, hcall]
      · intro hone
        have hlength := hs.length
        obtain ⟨hlt, -⟩ := List.getElem?_eq_some_iff.mp hx
        obtain ⟨hlt', -⟩ := List.getElem?_eq_some_iff.mp hv
        omega

theorem workers_returns_outside (k : Nat) {call : Call} (h : call.caller = none) :
    (s.returns k call).workers = s.workers := by
  unfold State.returns
  rw [h]
  rfl

theorem workers_returns (k : Nat) {call : Call} {w : Nat} (h : call.caller = some w) :
    (s.returns k call).workers = s.workers.set w .idle := by
  unfold State.returns
  rw [h]
  rfl

/-- A call returns. -/
theorem State.Callers.returns (hs : s.Callers workers) {k : Nat} {call : Call}
    (hcall : s.calls[k]? = some call) (hopen : call.returned = false) :
    (s.returns k call).Callers workers := by
  have hcalls := (calls_returns s k call).1
  have hothers : ∀ (j w : Nat) (x : Call), (s.returns k call).calls[j]? = some x →
      x.owner = (false, some w) → j ≠ k ∧ s.calls[j]? = some x := by
    intro j w x hx howner
    rw [hcalls, getElem?_set_of_some hcall] at hx
    split at hx
    · cases hx
      cases howner
    · rename_i hjk
      exact ⟨hjk, hx⟩
  have hkept : ∀ (j w : Nat) (x : Call), s.calls[j]? = some x → x.owner = (false, some w) →
      call.caller ≠ some w → (s.returns k call).calls[j]? = some x := by
    intro j w x hx howner hne
    rw [hcalls, getElem?_set_of_some hcall, if_neg]
    · exact hx
    · intro hjk
      rw [hjk, hcall] at hx
      cases hx
      exact hne (congrArg Prod.snd howner)
  cases hcaller : call.caller with
  | none =>
    have hworkers : (s.returns k call).workers = s.workers := workers_returns_outside k hcaller
    refine ⟨by rw [hworkers, hs.length], ?_, ?_⟩
    · intro j w x hx howner
      obtain ⟨-, hx⟩ := hothers j w x hx howner
      rw [hworkers]
      exact hs.waits j w x hx howner
    · rw [hworkers]
      intro w j hw
      obtain ⟨x, hx, howner, hrest⟩ := hs.calls w j hw
      refine ⟨x, hkept j w x hx howner ?_, howner, hrest⟩
      rw [hcaller]
      intro heq
      cases heq
  | some v =>
    have hworkers : (s.returns k call).workers = s.workers.set v .idle := workers_returns k hcaller
    have hworker := hs.waits k v call hcall (Prod.ext hopen hcaller)
    refine ⟨by rw [hworkers, List.length_set, hs.length], ?_, ?_⟩
    · intro j w x hx howner
      obtain ⟨hjk, hx⟩ := hothers j w x hx howner
      have hwaits := hs.waits j w x hx howner
      rw [hworkers, getElem?_set_of_some hworker, if_neg]
      · exact hwaits
      · intro hwv
        rw [hwv, hworker] at hwaits
        cases hwaits
        exact hjk rfl
    · rw [hworkers]
      intro w j hw
      rw [getElem?_set_of_some hworker] at hw
      split at hw
      · cases hw
      · rename_i hwv
        obtain ⟨x, hx, howner, hrest⟩ := hs.calls w j hw
        refine ⟨x, hkept j w x hx howner ?_, howner, hrest⟩
        rw [hcaller]
        intro heq
        exact hwv (Option.some.inj heq).symm

/-- **One step** keeps the callers where they are. -/
theorem callers_step (hs : s.Callers workers) (hstep : step s e = some t) :
    t.Callers workers := by
  have hsame : ∀ k : Nat, (s.calls[k]?).map Call.owner = (s.calls[k]?).map Call.owner :=
    fun _ => rfl
  cases e with
  | post socket =>
    cases hstep
    exact hs.of_eq rfl rfl
  | call socket =>
    cases hstep
    exact hs.shutdown socket
  | take w =>
    simp only [step] at hstep
    split at hstep
    · cases hstep
    · simp only [Option.ite_none_right_eq_some, Option.some.injEq] at hstep
      obtain ⟨hidle, ht⟩ := hstep
      rw [← ht]
      exact hs.act hidle (by simp) (by simp) rfl hsame
  | acquire w =>
    simp only [step] at hstep
    split at hstep
    · rename_i socket hlocking
      simp only [Option.ite_none_right_eq_some, Option.some.injEq] at hstep
      rw [← hstep.2]
      exact hs.acquire hlocking (by simp) socket rfl rfl
    · cases hstep
  | handler w socket =>
    simp only [step, Option.ite_none_right_eq_some, Option.some.injEq] at hstep
    obtain ⟨⟨hidle, -⟩, ht⟩ := hstep
    rw [← ht]
    exact hs.act hidle (by simp) (by simp) rfl hsame
  | handlerDone w thrown =>
    simp only [step] at hstep
    split at hstep
    · rename_i socket hhandler
      cases hstep
      refine hs.act hhandler (by simp) ?_ rfl hsame
      cases thrown with
      | false => simp
      | true => simp
    · cases hstep
  | enter w k =>
    simp only [step] at hstep
    split at hstep
    · cases hstep
    · rename_i call hcall
      simp only [Option.ite_none_right_eq_some, Option.some.injEq] at hstep
      obtain ⟨⟨hidle, -⟩, ht⟩ := hstep
      rw [← ht]
      exact hs.act hidle (by simp) (by simp) rfl (owner_set hcall rfl)
  | endpoint w thrown =>
    obtain ⟨k, call, hworker, hcall, -, ht⟩ := inClosure_eq_some hstep
    unfold stepEndpoint at ht
    split at ht
    · cases ht
    · split at ht
      · cases ht
        exact hs.act hworker (by simp) (by simp) rfl (owner_set hcall rfl)
      · split at ht
        · split at ht
          · cases ht
            exact hs.act hworker (by simp) (by simp) rfl (owner_set hcall rfl)
          · cases ht
        · split at ht
          · cases ht
          · cases ht
            exact hs.act hworker (by simp) (by simp) (set_self hworker) (owner_set hcall rfl)
  | setValue w =>
    obtain ⟨k, call, hworker, hcall, -, ht⟩ := inClosure_eq_some hstep
    cases ht
    exact hs.act hworker (by simp) (by simp) (set_self hworker) (owner_set hcall rfl)
  | close w thrown =>
    obtain ⟨k, call, hworker, hcall, -, ht⟩ := inClosure_eq_some hstep
    cases ht
    cases thrown with
    | false => exact hs.act hworker (by simp) (by simp) rfl (owner_set hcall rfl)
    | true => exact hs.act hworker (by simp) (by simp) rfl (owner_set hcall rfl)
  | signalled k =>
    simp only [step] at hstep
    split at hstep
    · cases hstep
    · rename_i call hcall
      simp only [Option.ite_none_right_eq_some, Option.some.injEq] at hstep
      obtain ⟨⟨hopen, -⟩, ht⟩ := hstep
      rw [← ht]
      exact hs.returns hcall hopen
  | timedOut k =>
    simp only [step] at hstep
    split at hstep
    · cases hstep
    · rename_i call hcall
      simp only [Option.ite_none_right_eq_some, Option.some.injEq] at hstep
      rw [← hstep.2]
      exact hs.returns hcall hstep.1
  | drop socket =>
    simp only [step, Option.ite_none_right_eq_some, Option.some.injEq] at hstep
    rw [← hstep.2]
    exact hs.of_eq rfl rfl

theorem callers_init (workers : Nat) (sockets : List Socket) :
    (machine workers sockets).init.Callers workers where
  length := List.length_replicate
  waits k w call hcall := by cases hcall
  calls w k hw := by
    have hmem := List.mem_of_getElem? hw
    cases List.eq_of_mem_replicate hmem

/-- **The promise is there if the waits are long enough**: in a run in which no wait times
out before its closure has come past `set_value`, each `set_value` is performed while the
call has not returned. After a wait that was too short a `set_value` finds no promise. In a
pool of one thread a call from a task of the pool cannot be signalled: its wait times out,
and it is too short. -/
theorem set_value_before_return {workers : Nat} {sockets : List Socket} {es : List Event}
    {s : State}
    (hr : (machine workers sockets).run (machine workers sockets).init es = some s) :
    ((machine workers sockets).EachStep WaitsLongEnough (machine workers sockets).init es →
      s.Safe) ∧
    (∀ (k : Nat) (call : Call), s.calls[k]? = some call → call.returned = true →
      call.closure.pending = true → ∀ (es' : List Event) (t : State),
        (machine workers sockets).run s es' = some t →
          ∀ call' : Call, t.calls[k]? = some call' → call'.value = true → ¬ t.Safe) ∧
    (workers = 1 → ∀ w k : Nat, s.workers[w]? = some (.inShutdown k) →
      step s (.signalled k) = none ∧ (∃ t, step s (.timedOut k) = some t) ∧
        ¬ WaitsLongEnough s (.timedOut k)) := by
  refine ⟨?_, ?_, ?_⟩
  · intro hwaits
    have hinv : s.Inv := Machine.run_invariant_of_eachStep (I := State.Inv)
      (fun _ _ _ hinv hwaits hstep => inv_step hinv hwaits hstep) hwaits
      (inv_init workers sockets) hr
    exact hinv.safe
  · intro k call hcall hreturned hpending es' t hr' call' hcall' hvalue hsafe
    have hsettled : s.Settled := Machine.run_invariant (I := State.Settled)
      (fun _ _ _ hs hstep => settled_step hs hstep) (fun _ _ hcall _ => by cases hcall) hr
    have hlate : s.Late k := by
      refine ⟨call, hcall, hreturned, fun hvalue => ?_⟩
      rw [hsettled k call hcall hvalue] at hpending
      cases hpending
    obtain ⟨x, hx, -, hlog⟩ := Machine.run_invariant (I := State.Late k)
      (fun _ _ _ hs hstep => late_step hs hstep) hlate hr'
    cases hcall'.symm.trans hx
    have hentry := hsafe (k, false) (hlog hvalue)
    cases hentry
  · intro hone w k hw
    have hcallers : s.Callers workers := Machine.run_invariant (I := State.Callers workers)
      (fun _ _ _ hs hstep => callers_step hs hstep) (callers_init workers sockets) hr
    obtain ⟨call, hcall, howner, hposted⟩ := hcallers.calls w k hw
    obtain ⟨hclosure, hvalue⟩ := hposted hone
    have hopen : call.returned = false := congrArg Prod.fst howner
    refine ⟨?_, ⟨s.returns k call, ?_⟩, ?_⟩
    · simp only [step, hcall, hvalue, Bool.false_eq_true, and_false, if_false]
    · simp only [step, hcall, if_pos hopen]
    · intro hlong
      have hnot := hlong call hcall
      rw [hclosure] at hnot
      cases hnot

/-- One worker is in the call for a session, the other runs the closure. -/
def handShake : List Event :=
  [.post 0, .take 0, .acquire 0, .enter 1 0, .endpoint 1 false, .setValue 1, .signalled 0,
    .close 1 false]

theorem set_value_before_return_handShake :
    ∃ s, (machine 2 [{ kind := .session }]).run (machine 2 [{ kind := .session }]).init handShake =
        some s ∧ s.log = [(0, true)] ∧ s.Safe := by
  have hlog : ((machine 2 [{ kind := .session }]).run (machine 2 [{ kind := .session }]).init
      handShake).map State.log = some [(0, true)] := by decide
  obtain ⟨s, hr, hs⟩ := Option.map_eq_some_iff.mp hlog
  refine ⟨s, hr, hs, (set_value_before_return hr).1 ?_⟩
  exact ⟨trivial, fun _ _ => ⟨trivial, fun _ _ => ⟨trivial, fun _ _ => ⟨trivial, fun _ _ =>
    ⟨trivial, fun _ _ => ⟨trivial, fun _ _ => ⟨trivial, fun _ _ => ⟨trivial, fun _ _ =>
      trivial⟩⟩⟩⟩⟩⟩⟩⟩

/-- The only worker calls `shutdown` for a session; its wait times out, and then it runs the
closure. The session has another owner, such as the handler of a message that is still to be
processed; otherwise its helper would be gone with the function that has removed it. -/
def removed : List Event :=
  [.post 0, .take 0, .acquire 0, .timedOut 0, .enter 0 0, .endpoint 0 false, .setValue 0]

/-- `server_base::stop` shuts down two sessions, which it owns. The strand of the first is
busy for too long, and the closure runs while `stop` waits for the second. -/
def stopped : List Event :=
  [.handler 0 0, .call 0, .timedOut 0, .call 1, .handlerDone 0 false, .enter 0 0,
    .endpoint 0 false, .setValue 0]

/-- An outside thread calls `shutdown` of a connector while the strand is busy. -/
def disconnected : List Event :=
  [.handler 0 0, .call 0, .timedOut 0, .handlerDone 0 false, .enter 0 0, .endpoint 0 false,
    .setValue 0]

theorem exists_not_safe {workers : Nat} {sockets : List Socket} {es : List Event}
    (h : ((machine workers sockets).run (machine workers sockets).init es).map State.log =
      some [(0, false)]) :
    ∃ s, (machine workers sockets).run (machine workers sockets).init es = some s ∧
      s.log = [(0, false)] ∧ ¬ s.Safe := by
  obtain ⟨s, hr, hs⟩ := Option.map_eq_some_iff.mp h
  refine ⟨s, hr, hs, fun hsafe => ?_⟩
  have hentry := hsafe (0, false) (hs ▸ List.mem_cons_self)
  cases hentry

/-- **The closure uses a promise that is gone**: of a session that `async_remove_session`
removes in a pool of one thread, of a session that `stop` shuts down, and of a connector
whose strand is busy for too long. -/
theorem set_value_after_return :
    (∃ s, (machine 1 [{ kind := .session }]).run (machine 1 [{ kind := .session }]).init removed =
      some s ∧ s.log = [(0, false)] ∧ ¬ s.Safe) ∧
    (∃ s, (machine 1 [{ kind := .session }, { kind := .session }]).run
      (machine 1 [{ kind := .session }, { kind := .session }]).init stopped =
        some s ∧ s.log = [(0, false)] ∧ ¬ s.Safe) ∧
    ∃ s, (machine 2 [{ kind := .connector }]).run (machine 2 [{ kind := .connector }]).init
      disconnected = some s ∧ s.log = [(0, false)] ∧ ¬ s.Safe :=
  ⟨exists_not_safe (by decide), exists_not_safe (by decide), exists_not_safe (by decide)⟩

end MpRpc.Transport.Shutdown
