import MpRpc.Client.Handlers
import MpRpc.Execution.Typed
import MpRpc.Remote.Tcp

/-!
# Sync — synchronous typed calls

Threads in `client::request`, beside whatever else happens to the client: each calls
`async_request`, installs the promise of `get_future` as the handler of the future, and
waits until the promise is set or the time is over. The closure that a future posts is run
by the thread pool, at any time after it was posted and once. How long a thread waits is
left to the environment, so a call may time out whenever its promise is not set.
-/

namespace MpRpc

open Msgpack

/-- A handler of a future: one of the user, or the promise of the synchronous call `i`. -/
inductive Waiter (U : Type*) where
  | user (handler : U)
  | promise (i : Nat)

/-- What the call of a handler sets the promise of `get_future` to. -/
def TypedCall.content {R : Type*} : TypedCall R → Except ErrorInfo R
  | .onSuccess v => .ok v
  | .onFailure info => .error info

/-- The arguments of a typed call of which a message can be packed. -/
structure TypedRequest where
  sig : Signature
  args : Args sig.params
  nameSized : sig.name.length < 2 ^ 32
  argsPackable : (Object.array (Args.pack sig.params args)).Packable
deriving DecidableEq

/-- `async_request<R>(method, params...)`. -/
def TypedRequest.call (q : TypedRequest) : PackableCall :=
  ⟨q.sig.name, Args.pack q.sig.params q.args, q.nameSized, q.argsPackable⟩

/-- A thread in `client::request`: its call of `async_request`, whether `get_future` has
returned, what the promise was set to, and what `request` has returned or thrown. -/
structure SyncCall where
  typed : TypedRequest
  request : Nat
  waits : Bool := false
  promise : Option (Except ErrorInfo typed.sig.result.Value) := none
  outcome : Option (Except ErrorInfo typed.sig.result.Value) := none
deriving DecidableEq

namespace SyncCall

/-- What the handlers of `get_future` set the promise to. -/
def promised (typed : TypedRequest) (error : ErrorInfo) (msg : Message) :
    Option (Except ErrorInfo typed.sig.result.Value) :=
  (typed.sig.result.onCompletion (fun _ => none) error msg).head?.map TypedCall.content

def fulfil (error : ErrorInfo) (msg : Message) (c : SyncCall) : SyncCall :=
  { c with promise := promised c.typed error msg }

def timeout (name : Bytes) : ErrorInfo :=
  .of .timeout ("timeout in synchronous request for " ++
    String.ofList (name.map fun b => Char.ofNat b.toNat))

/-- `wait_for` returns without the promise. -/
def timeOut (c : SyncCall) : Option SyncCall :=
  if c.waits && c.promise.isNone && c.outcome.isNone then
    some { c with outcome := some (.error (timeout c.typed.sig.name)) }
  else none

/-- `wait_for` and `get` return. -/
def get (c : SyncCall) : Option SyncCall :=
  if c.waits && c.outcome.isNone then c.promise.map fun v => { c with outcome := some v }
  else none

end SyncCall

/-- The system with its synchronous callers; `ran` lists the calls of `async_request` whose
posted closure has run. -/
structure SyncRemote (U I σ τ : Type*) where
  remote : Remote (Waiter U) I σ τ
  callers : List SyncCall := []
  ran : List Nat := []

namespace SyncRemote

variable {U I σ τ ι κ : Type*}

inductive Event (ι κ U : Type*) where
  /-- `request` calls `async_request` -/
  | request (typed : TypedRequest)
  /-- `async_request` has returned to caller `i`, which calls `get_future` -/
  | getFuture (i : Nat)
  /-- the pool runs what the future of call `r` has posted -/
  | runPosted (r : Nat)
  | timeOut (i : Nat)
  | get (i : Nat)
  /-- anything else -/
  | other (e : Remote.Event ι κ (Waiter U))

/-- Nobody else has the future of a synchronous caller, or its promise. -/
def Foreign (s : SyncRemote U I σ τ) : Remote.Event ι κ (Waiter U) → Prop
  | .user (.setHandler r (.user _)) => r ∉ s.callers.map SyncCall.request
  | .user (.setHandler _ (.promise _)) => False
  | _ => True

instance (s : SyncRemote U I σ τ) : DecidablePred (s.Foreign (ι := ι) (κ := κ))
  | .user (.setHandler r (.user _)) =>
      inferInstanceAs (Decidable (r ∉ s.callers.map SyncCall.request))
  | .user (.setHandler _ (.promise _)) => .isFalse id
  | .user (.asyncRequest _) | .user (.fetch _) | .user (.register _) | .user (.notify _)
  | .user (.writeDone _ _) | .front _ | .back _ _ => .isTrue trivial

/-- The closure calls the handler that it has captured. -/
def runClosure (callers : List SyncCall) (call : PostedCall (Waiter U)) : List SyncCall :=
  match call.handler with
  | .user _ => callers
  | .promise i => callers.modify i (SyncCall.fulfil call.error call.msg)

def step (front : Relay σ ι MessageData (Answer I))
    (back : Relay τ κ MessageData Transport.ReadCall) (s : SyncRemote U I σ τ) :
    Event ι κ U → Option (SyncRemote U I σ τ)
  | .request typed =>
      (Remote.step front back s.remote (.user (.asyncRequest typed.call))).map fun t =>
        { s with
          remote := t
          callers := s.callers ++ [{ typed, request := s.remote.client.calls.length }] }
  | .getFuture i =>
      match s.callers[i]? with
      | none => none
      | some c =>
          if c.waits then none
          else
            (Remote.step front back s.remote (.user (.setHandler c.request (.promise i)))).map
              fun t => { s with
                remote := t
                callers := s.callers.modify i fun c => { c with waits := true } }
  | .runPosted r =>
      if r ∈ s.ran then none
      else
        (s.remote.client.future r).posted.head?.map fun call =>
          { s with ran := r :: s.ran, callers := runClosure s.callers call }
  | .timeOut i =>
      (s.callers[i]?.bind SyncCall.timeOut).map fun c =>
        { s with callers := s.callers.set i c }
  | .get i =>
      (s.callers[i]?.bind SyncCall.get).map fun c => { s with callers := s.callers.set i c }
  | .other e =>
      if s.Foreign e then (Remote.step front back s.remote e).map fun t => { s with remote := t }
      else none

def machine (U : Type*) (front : Relay σ ι MessageData (Answer I))
    (back : Relay τ κ MessageData Transport.ReadCall) :
    Machine (SyncRemote U I σ τ) (Event ι κ U) where
  init := { remote := (Remote.machine (Waiter U) front back).init }
  step := step front back

/-- The values that an event draws from the counter of the client. -/
def Event.draws : Event ι κ U → Nat
  | .request _ => 1
  | .other e => e.draws
  | _ => 0

def draws (es : List (Event ι κ U)) : Nat := (es.map Event.draws).sum

/-! ## What the client sees of a step -/

variable {front : Relay σ ι MessageData (Answer I)}
  {back : Relay τ κ MessageData Transport.ReadCall}

/-- **The client in a step of the system** stays or takes a step of its own; it sets a
handler only for a user who does. -/
theorem client_of_step {H : Type*} {s t : Remote H I σ τ} {e : Remote.Event ι κ H}
    (h : Remote.step front back s e = some t) :
    t.client = s.client ∨ ∃ ev, s.client.step ev = some t.client ∧
      ∀ r handler, ev = .setHandler r handler → e = .user (.setHandler r handler) := by
  cases e with
  | user e =>
    obtain ⟨client, hclient, h⟩ := Option.bind_eq_some_iff.mp h
    obtain ⟨f, -, rfl⟩ := Option.map_eq_some_iff.mp h
    refine .inr ⟨e.toClient, hclient, ?_⟩
    intro r handler heq
    cases e with
    | setHandler r' handler' =>
      cases heq
      rfl
    | asyncRequest call => cases heq
    | fetch r' => cases heq
    | register r' => cases heq
    | notify call => cases heq
    | writeDone i error => cases heq
  | front i =>
    simp only [Remote.step] at h
    split at h
    · cases h
    · cases h
      exact .inl rfl
    · obtain ⟨u, -, rfl⟩ := Option.map_eq_some_iff.mp h
      exact .inl rfl
  | back i order =>
    simp only [Remote.step] at h
    split at h
    · cases h
    · cases h
      exact .inl rfl
    · rename_i call _
      obtain ⟨client, hclient, rfl⟩ := Option.map_eq_some_iff.mp h
      refine .inr ⟨_, hclient, ?_⟩
      intro r handler heq
      cases call <;> cases heq

theorem user_of_step {H : Type*} {s t : Remote H I σ τ} {e : Client.UserEvent H}
    (h : Remote.step front back s (.user e) = some t) :
    s.client.step e.toClient = some t.client := by
  simp only [Remote.step] at h
  obtain ⟨client, hclient, h⟩ := Option.bind_eq_some_iff.mp h
  obtain ⟨f, -, rfl⟩ := Option.map_eq_some_iff.mp h
  exact hclient

/-! ## A caller -/

/-- What is known of a caller: its promise says what its request was completed with, and it
returned what the promise says, unless its time was over. -/
structure CallerInv (client : Client (Waiter U)) (c : SyncCall) : Prop where
  asked : client.asked c.request = some (c.typed.call.method, c.typed.call.params)
  registered : c.waits = true → ∃ id, client.idOf c.request = some id
  promise : ∀ v, c.promise = some v → ∃ error msg,
    client.completion c.request = some (error, msg) ∧ SyncCall.promised c.typed error msg = some v
  outcome : ∀ o, c.outcome = some o →
    o = .error (SyncCall.timeout c.typed.sig.name) ∨ c.promise = some o

theorem CallerInv.mono {client client' : Client (Waiter U)} {c : SyncCall}
    (h : CallerInv client c) (hevolves : Client.Evolves client client') :
    CallerInv client' c where
  asked := hevolves.asked _ _ h.asked
  registered hwaits := by
    obtain ⟨id, hid⟩ := h.registered hwaits
    exact ⟨id, hevolves.idOf _ _ hid⟩
  promise v hv := by
    obtain ⟨error, msg, hcompletion, hpromised⟩ := h.promise v hv
    exact ⟨error, msg, hevolves.completion _ _ hcompletion, hpromised⟩
  outcome := h.outcome

/-- The promise is set to what the request was completed with. Nothing changes if it was
set before: a request is completed once. -/
theorem CallerInv.fulfil {client : Client (Waiter U)} {c : SyncCall} (h : CallerInv client c)
    {error : ErrorInfo} {msg : Message}
    (hcompletion : client.completion c.request = some (error, msg)) :
    CallerInv client (c.fulfil error msg) where
  asked := h.asked
  registered := h.registered
  promise v hv := ⟨error, msg, hcompletion, hv⟩
  outcome o ho := by
    rcases h.outcome o ho with htimeout | hpromise
    · exact .inl htimeout
    · right
      obtain ⟨error', msg', hcompletion', hpromised⟩ := h.promise o hpromise
      obtain ⟨rfl, rfl⟩ := Prod.mk.inj (Option.some.inj (hcompletion.symm.trans hcompletion'))
      exact hpromised

/-- The request of a caller, and whether its promise is installed there. -/
def key (c : SyncCall) : Nat × Bool := (c.request, c.waits)

/-- What the end of a call leaves as it is. -/
structure SameButOutcome (client : Client (Waiter U)) (c c' : SyncCall) : Prop where
  inv : CallerInv client c'
  key : key c' = key c
  promise : c.promise.isSome → c'.promise.isSome

theorem CallerInv.timeOut {client : Client (Waiter U)} {c c' : SyncCall} (h : CallerInv client c)
    (hc : c.timeOut = some c') : SameButOutcome client c c' := by
  unfold SyncCall.timeOut at hc
  split at hc
  · cases hc
    refine ⟨⟨h.asked, h.registered, h.promise, ?_⟩, rfl, id⟩
    intro o ho
    exact .inl (Option.some.inj ho).symm
  · cases hc

theorem CallerInv.get {client : Client (Waiter U)} {c c' : SyncCall} (h : CallerInv client c)
    (hc : c.get = some c') : SameButOutcome client c c' := by
  unfold SyncCall.get at hc
  split at hc
  · obtain ⟨v, hv, rfl⟩ := Option.map_eq_some_iff.mp hc
    refine ⟨⟨h.asked, h.registered, h.promise, ?_⟩, rfl, id⟩
    intro o ho
    right
    rw [← Option.some.inj ho]
    exact hv
  · cases hc

/-! ## The handlers -/

/-- The handler on the future of a caller is its promise, once it is installed, and the
promise of a caller is a handler of its own future only. -/
structure Owners (owner : Nat → Option (Waiter U)) (keys : List (Nat × Bool)) : Prop where
  distinct : (keys.map Prod.fst).Nodup
  caller : ∀ i r (waits : Bool), keys[i]? = some (r, waits) →
    owner r = if waits then some (.promise i) else none
  promise : ∀ r i, owner r = some (.promise i) → ∃ waits : Bool, keys[i]? = some (r, waits)

variable {owner : Nat → Option (Waiter U)} {keys : List (Nat × Bool)}

theorem Owners.index_unique (h : Owners owner keys) {i j r : Nat} {b b' : Bool}
    (hi : keys[i]? = some (r, b)) (hj : keys[j]? = some (r, b')) : i = j := by
  have hi' : (keys.map Prod.fst)[i]? = some r := by rw [List.getElem?_map, hi]; rfl
  have hj' : (keys.map Prod.fst)[j]? = some r := by rw [List.getElem?_map, hj]; rfl
  obtain ⟨hlt, -⟩ := List.getElem?_eq_some_iff.mp hi'
  exact (List.getElem?_inj hlt h.distinct).mp (hi'.trans hj'.symm)

/-- A handler on the future of caller `i` is the promise of this caller. -/
theorem Owners.handler_eq (h : Owners owner keys) {i r : Nat} {b : Bool} {handler : Waiter U}
    (howner : owner r = some handler) (hi : keys[i]? = some (r, b)) : handler = .promise i := by
  have hcaller := h.caller i r b hi
  rw [howner] at hcaller
  cases b with
  | true => exact Option.some.inj hcaller
  | false => cases hcaller

/-- A user sets a handler on another future. -/
theorem Owners.foreign (h : Owners owner keys) {r : Nat} {handler : U}
    (hr : r ∉ keys.map Prod.fst) :
    Owners (Function.update owner r (some (.user handler))) keys where
  distinct := h.distinct
  caller i r' waits hi := by
    have hne : r' ≠ r := by
      rintro rfl
      exact hr (List.mem_map.mpr ⟨_, List.mem_of_getElem? hi, rfl⟩)
    rw [Function.update_of_ne hne]
    exact h.caller i r' waits hi
  promise r' i hi := by
    by_cases hne : r' = r
    · subst hne
      simp at hi
    · rw [Function.update_of_ne hne] at hi
      exact h.promise r' i hi

/-- Caller `i` installs its promise. -/
theorem Owners.install (h : Owners owner keys) {i r : Nat} (hi : keys[i]? = some (r, false)) :
    Owners (Function.update owner r (some (.promise i))) (keys.set i (r, true)) := by
  obtain ⟨hlt, hget⟩ := List.getElem?_eq_some_iff.mp hi
  refine ⟨?_, ?_, ?_⟩
  · have hmap : (keys.set i (r, true)).map Prod.fst = keys.map Prod.fst := by
      apply List.ext_getElem?
      intro j
      by_cases hj : i = j
      · subst hj
        simp [hlt, hget]
      · simp [hj]
    rw [hmap]
    exact h.distinct
  · intro j r' waits hj
    by_cases hij : i = j
    · subst hij
      rw [List.getElem?_set_self hlt] at hj
      cases hj
      rw [Function.update_self, if_pos rfl]
    · rw [List.getElem?_set_ne hij] at hj
      have hne : r' ≠ r := by
        rintro rfl
        exact hij (h.index_unique hi hj)
      rw [Function.update_of_ne hne]
      exact h.caller j r' waits hj
  · intro r' j hj
    by_cases hne : r' = r
    · subst hne
      rw [Function.update_self] at hj
      cases hj
      exact ⟨true, List.getElem?_set_self hlt⟩
    · rw [Function.update_of_ne hne] at hj
      obtain ⟨waits, hkey⟩ := h.promise r' j hj
      have hij : i ≠ j := by
        rintro rfl
        rw [hi] at hkey
        cases hkey
        exact hne rfl
      exact ⟨waits, by rw [List.getElem?_set_ne hij, hkey]⟩

/-- A new caller, on a future without a handler. -/
theorem Owners.append (h : Owners owner keys) {r : Nat} (hr : r ∉ keys.map Prod.fst)
    (howner : owner r = none) : Owners owner (keys ++ [(r, false)]) where
  distinct := by
    rw [List.map_append, List.nodup_append]
    refine ⟨h.distinct, by simp, ?_⟩
    rintro a ha b hb rfl
    simp only [List.map_cons, List.map_nil, List.mem_singleton] at hb
    exact hr (hb ▸ ha)
  caller i r' waits hi := by
    rcases Nat.lt_trichotomy i keys.length with hlt | heq | hgt
    · rw [List.getElem?_append_left hlt] at hi
      exact h.caller i r' waits hi
    · subst heq
      simp only [List.getElem?_concat_length, Option.some.injEq, Prod.mk.injEq] at hi
      obtain ⟨rfl, rfl⟩ := hi
      exact howner
    · rw [List.getElem?_eq_none (by simp; omega)] at hi
      cases hi
  promise r' i hi := by
    obtain ⟨waits, hkey⟩ := h.promise r' i hi
    refine ⟨waits, ?_⟩
    rw [List.getElem?_append_left (List.getElem?_eq_some_iff.mp hkey).1, hkey]

/-! ## The invariant -/

/-- What holds in every reachable state. -/
structure Inv (s : SyncRemote U I σ τ) : Prop where
  client : s.remote.client.Inv
  callers : ∀ c ∈ s.callers, CallerInv s.remote.client c
  owners : ∃ owner, s.remote.client.Owned owner ∧ Owners owner (s.callers.map key)
  /-- The closure of a caller's future has set its promise. -/
  ran : ∀ c ∈ s.callers, c.request ∈ s.ran → c.promise.isSome
  /-- Only the closures of calls have run. -/
  called : ∀ r ∈ s.ran, ∃ q, s.remote.client.asked r = some q

theorem inv_init (U : Type*) (front : Relay σ ι MessageData (Answer I))
    (back : Relay τ κ MessageData Transport.ReadCall) : Inv (machine U front back).init where
  client := Client.inv_init.of_same rfl rfl rfl
  callers c hc := by cases hc
  owners := by
    refine ⟨fun _ => none, Client.owned_init.of_calls rfl, List.nodup_nil, ?_, ?_⟩
    · intro i r waits hi
      cases hi
    · intro r i hi
      cases hi
  ran c hc := by cases hc
  called r hr := by cases hr

variable {s t : SyncRemote U I σ τ}

theorem map_fst_key (callers : List SyncCall) :
    (callers.map key).map Prod.fst = callers.map SyncCall.request := by
  rw [List.map_map]
  rfl

/-- **A move of the system** that leaves the futures of the callers to them. -/
theorem Inv.moves (h : Inv s) {e : Remote.Event ι κ (Waiter U)} {remote : Remote (Waiter U) I σ τ}
    (he : Remote.step front back s.remote e = some remote) (hforeign : s.Foreign e) :
    Inv { s with remote } := by
  obtain ⟨owner, howned, howners⟩ := h.owners
  rcases client_of_step he with hsame | ⟨ev, hstep, hset⟩
  · refine ⟨?_, ?_, ⟨owner, ?_, howners⟩, h.ran, ?_⟩
    · simpa only [hsame] using h.client
    · simpa only [hsame] using h.callers
    · simpa only [hsame] using howned
    · simpa only [hsame] using h.called
  · obtain ⟨hinv, hevolves⟩ := h.client.step hstep
    have hcalled : ∀ r ∈ s.ran, ∃ q, remote.client.asked r = some q := by
      intro r hr
      obtain ⟨q, hq⟩ := h.called r hr
      exact ⟨q, hevolves.asked r q hq⟩
    refine ⟨hinv, fun c hc => (h.callers c hc).mono hevolves, ?_, h.ran, hcalled⟩
    by_cases hsets : ∃ r handler, ev = .setHandler r handler
    · obtain ⟨r, handler, rfl⟩ := hsets
      obtain rfl := hset r handler rfl
      have howned' := howned.setHandler hstep
      cases handler with
      | user handler =>
        have hr : r ∉ (s.callers.map key).map Prod.fst := by
          rw [map_fst_key]
          exact hforeign
        by_cases hnone : owner r = none
        · rw [if_pos hnone] at howned'
          exact ⟨_, howned', howners.foreign hr⟩
        · rw [if_neg hnone] at howned'
          exact ⟨owner, howned', howners⟩
      | promise i => exact False.elim hforeign
    · exact ⟨owner, howned.step hstep fun r handler heq => hsets ⟨r, handler, heq⟩, howners⟩

/-- Replacing a caller by one that differs in its end or in its promise. -/
theorem Inv.setCaller (h : Inv s) {i : Nat} {c c' : SyncCall}
    (hc : s.callers[i]? = some c) (hsame : SameButOutcome s.remote.client c c') :
    Inv { s with callers := s.callers.set i c' } where
  client := h.client
  callers d hd := by
    rcases List.mem_or_eq_of_mem_set hd with hold | rfl
    · exact h.callers d hold
    · exact hsame.inv
  owners := by
    have hmap : (s.callers.set i c').map key = s.callers.map key := by
      obtain ⟨hi, rfl⟩ := List.getElem?_eq_some_iff.mp hc
      rw [List.map_set, hsame.key, ← List.getElem_map key, List.set_getElem_self]
      simpa using hi
    rw [hmap]
    exact h.owners
  ran d hd hran := by
    rcases List.mem_or_eq_of_mem_set hd with hold | rfl
    · exact h.ran d hold hran
    · have hrequest : d.request = c.request := congrArg Prod.fst hsame.key
      rw [hrequest] at hran
      exact hsame.promise (h.ran c (List.mem_of_getElem? hc) hran)
  called := h.called

theorem modify_eq_set {α : Type*} {l : List α} {i : Nat} {a : α} (f : α → α)
    (h : l[i]? = some a) : l.modify i f = l.set i (f a) := by
  rw [List.modify_eq_set_getElem?, h]
  rfl

/-- Every completion sets the promise. -/
theorem isSome_promised (typed : TypedRequest) (error : ErrorInfo) (msg : Message) :
    (SyncCall.promised typed error msg).isSome := by
  have hcalls := typed.sig.result.onCompletion_ne_nil error msg
  obtain ⟨call, rest, heq⟩ := List.exists_cons_of_ne_nil hcalls
  simp [SyncCall.promised, heq]

/-- A cell that has posted was completed with what it has posted, for its handler. -/
theorem posted_cases {client : Client (Waiter U)} (howned : client.Owned owner) {r : Nat}
    {call : PostedCall (Waiter U)} (hcall : (client.future r).posted.head? = some call) :
    owner r = some call.handler ∧ client.completion r = some (call.error, call.msg) := by
  obtain ⟨value, hholds⟩ := howned r
  have hposted := hholds.posted
  have hcompletion : client.completion r = value := hholds.completion
  rw [hposted] at hcall
  cases hhandler : owner r with
  | none => simp [hhandler, ResponseFutureData.posting] at hcall
  | some handler =>
    cases value with
    | none => simp [hhandler, ResponseFutureData.posting] at hcall
    | some v =>
      rw [hhandler] at hcall
      obtain rfl := Option.some.inj hcall
      exact ⟨rfl, hcompletion⟩

/-- The pool runs the closure of call `r`. -/
theorem Inv.runPosted (h : Inv s) {r : Nat} {call : PostedCall (Waiter U)}
    (hcall : (s.remote.client.future r).posted.head? = some call) :
    Inv { s with callers := runClosure s.callers call, ran := r :: s.ran } := by
  obtain ⟨owner, howned, howners⟩ := h.owners
  obtain ⟨howner, hcompletion⟩ := posted_cases howned hcall
  have hcalled : ∀ r' ∈ r :: s.ran, ∃ q, s.remote.client.asked r' = some q := by
    intro r' hr'
    rcases List.mem_cons.mp hr' with rfl | hold
    · cases hget : s.remote.client.calls[r']? with
      | none => simp [Client.future, hget] at hcall
      | some c => exact ⟨_, by rw [Client.asked, hget]; rfl⟩
    · exact h.called r' hold
  have hindex : ∀ j d, s.callers[j]? = some d → d.request = r → call.handler = .promise j := by
    intro j d hd hr
    refine howners.handler_eq howner (b := d.waits) ?_
    rw [List.getElem?_map, hd, ← hr]
    rfl
  unfold runClosure
  cases hhandler : call.handler with
  | user handler =>
    refine ⟨h.client, h.callers, ⟨owner, howned, howners⟩, ?_, hcalled⟩
    intro d hd hran
    rcases List.mem_cons.mp hran with hr | hold
    · obtain ⟨j, hj⟩ := List.mem_iff_getElem?.mp hd
      have heq := hindex j d hj hr
      rw [hhandler] at heq
      cases heq
    · exact h.ran d hd hold
  | promise i =>
    rw [hhandler] at howner
    obtain ⟨waits, hkey⟩ := howners.promise r i howner
    rw [List.getElem?_map] at hkey
    obtain ⟨c, hc, hkey⟩ := Option.map_eq_some_iff.mp hkey
    have hrequest : c.request = r := congrArg Prod.fst hkey
    have hsame : SameButOutcome s.remote.client c (c.fulfil call.error call.msg) :=
      ⟨(h.callers c (List.mem_of_getElem? hc)).fulfil (by rw [hrequest]; exact hcompletion), rfl,
        fun _ => isSome_promised _ _ _⟩
    simp only [modify_eq_set _ hc]
    have hset := h.setCaller hc hsame
    refine ⟨hset.client, hset.callers, hset.owners, ?_, hcalled⟩
    intro d hd hran
    rcases List.mem_cons.mp hran with hr | hold
    · obtain ⟨j, hj⟩ := List.mem_iff_getElem?.mp hd
      by_cases hij : i = j
      · subst hij
        rw [List.getElem?_set_self (List.getElem?_eq_some_iff.mp hc).1] at hj
        cases hj
        exact isSome_promised _ _ _
      · rw [List.getElem?_set_ne hij] at hj
        have heq := hindex j d hj hr
        rw [hhandler] at heq
        cases heq
        exact absurd rfl hij
    · exact hset.ran d hd hold

/-- Caller `i` installs its promise on its own future. -/
theorem Inv.getFuture (h : Inv s) {i : Nat} {c : SyncCall} {remote : Remote (Waiter U) I σ τ}
    (hc : s.callers[i]? = some c) (hwaits : c.waits = false)
    (he : Remote.step front back s.remote (.user (.setHandler c.request (.promise i))) =
      some remote) :
    Inv { s with remote, callers := s.callers.set i { c with waits := true } } := by
  have hstep := user_of_step he
  obtain ⟨owner, howned, howners⟩ := h.owners
  obtain ⟨hinv, hevolves⟩ := h.client.step hstep
  obtain ⟨id, hid, -⟩ := Client.step_setHandler hstep
  have hmem := List.mem_of_getElem? hc
  have hkey : (s.callers.map key)[i]? = some (c.request, false) := by
    rw [List.getElem?_map, hc, ← hwaits]
    rfl
  have hnone : owner c.request = none := howners.caller i c.request false hkey
  refine ⟨hinv, ?_, ?_, ?_, ?_⟩
  · intro d hd
    rcases List.mem_or_eq_of_mem_set hd with hold | rfl
    · exact (h.callers d hold).mono hevolves
    · have hcaller := (h.callers c hmem).mono hevolves
      exact ⟨hcaller.asked, fun _ => ⟨id, hevolves.idOf _ _ hid⟩, hcaller.promise,
        hcaller.outcome⟩
  · have howned' := howned.setHandler hstep
    rw [if_pos hnone] at howned'
    refine ⟨_, howned', ?_⟩
    rw [List.map_set]
    exact howners.install hkey
  · intro d hd hran
    rcases List.mem_or_eq_of_mem_set hd with hold | rfl
    · exact h.ran d hold hran
    · exact h.ran c hmem hran
  · intro r hr
    obtain ⟨q, hq⟩ := h.called r hr
    exact ⟨q, hevolves.asked r q hq⟩

/-- A new caller asks for what its arguments say, with a future of its own. -/
theorem Inv.request (h : Inv s) {typed : TypedRequest} {remote : Remote (Waiter U) I σ τ}
    (he : Remote.step front back s.remote (.user (.asyncRequest typed.call)) = some remote) :
    Inv { s with
      remote
      callers := s.callers ++ [{ typed, request := s.remote.client.calls.length }] } := by
  have hinv := h.moves he trivial
  have hstep := user_of_step he
  obtain ⟨owner, howned, howners⟩ := hinv.owners
  refine ⟨hinv.client, ?_, ?_, ?_, hinv.called⟩
  · intro c hc
    rcases List.mem_append.mp hc with hold | hnew
    · exact hinv.callers c hold
    · obtain rfl := List.mem_singleton.mp hnew
      refine ⟨?_, by simp, by simp, by simp⟩
      rw [← Option.some.inj hstep]
      simp [Client.asked]
  · refine ⟨owner, howned, ?_⟩
    rw [List.map_append]
    refine howners.append ?_ ?_
    · rw [map_fst_key]
      intro hmem
      obtain ⟨c, hc, hrequest⟩ := List.mem_map.mp hmem
      have hasked := (h.callers c hc).asked
      rw [hrequest] at hasked
      simp [Client.asked] at hasked
    · -- the cell of the new call is empty
      obtain ⟨value, hholds⟩ := howned s.remote.client.calls.length
      have hempty : remote.client.future s.remote.client.calls.length = {} := by
        rw [← Option.some.inj hstep]
        simp [Client.future]
      rw [hempty] at hholds
      exact Option.isNone_iff_eq_none.mp (by simpa using hholds.hasHandler.symm)
  · intro c hc hmem
    rcases List.mem_append.mp hc with hold | hnew
    · exact h.ran c hold hmem
    · obtain rfl := List.mem_singleton.mp hnew
      -- nothing has run for a call that was not made
      obtain ⟨q, hq⟩ := h.called _ hmem
      simp [Client.asked] at hq

/-- **Every step keeps the invariant.** -/
theorem Inv.step (h : Inv s) {e : Event ι κ U} (he : step front back s e = some t) : Inv t := by
  cases e with
  | request typed =>
    obtain ⟨remote, hremote, rfl⟩ := Option.map_eq_some_iff.mp he
    exact h.request hremote
  | getFuture i =>
    simp only [SyncRemote.step] at he
    split at he
    · cases he
    · rename_i c hc
      split at he
      · cases he
      · rename_i hwaits
        obtain ⟨remote, hremote, rfl⟩ := Option.map_eq_some_iff.mp he
        simp only [modify_eq_set _ hc]
        exact h.getFuture hc (by simpa using hwaits) hremote
  | runPosted r =>
    simp only [SyncRemote.step] at he
    split at he
    · cases he
    · obtain ⟨call, hcall, rfl⟩ := Option.map_eq_some_iff.mp he
      exact h.runPosted hcall
  | timeOut i =>
    obtain ⟨c', hc', rfl⟩ := Option.map_eq_some_iff.mp he
    obtain ⟨c, hc, hout⟩ := Option.bind_eq_some_iff.mp hc'
    exact h.setCaller hc ((h.callers c (List.mem_of_getElem? hc)).timeOut hout)
  | get i =>
    obtain ⟨c', hc', rfl⟩ := Option.map_eq_some_iff.mp he
    obtain ⟨c, hc, hout⟩ := Option.bind_eq_some_iff.mp hc'
    exact h.setCaller hc ((h.callers c (List.mem_of_getElem? hc)).get hout)
  | other e =>
    simp only [SyncRemote.step] at he
    split at he
    · rename_i hforeign
      obtain ⟨remote, hremote, rfl⟩ := Option.map_eq_some_iff.mp he
      exact h.moves hremote hforeign
    · cases he

/-! ## The system in a run -/

/-- Nothing that `Fair` forbids happens outside the callers. -/
def Undisturbed (Fair : Remote (Waiter U) I σ τ → Remote.Event ι κ (Waiter U) → Prop)
    (s : SyncRemote U I σ τ) : Event ι κ U → Prop
  | .other e => Fair s.remote e
  | _ => True

instance (Fair : Remote (Waiter U) I σ τ → Remote.Event ι κ (Waiter U) → Prop)
    [∀ s, DecidablePred (Fair s)] (s : SyncRemote U I σ τ) : DecidablePred (s.Undisturbed Fair)
  | .other e => inferInstanceAs (Decidable (Fair s.remote e))
  | .request _ | .getFuture _ | .runPosted _ | .timeOut _ | .get _ => .isTrue trivial

theorem undisturbed_true (s : SyncRemote U I σ τ) (e : Event ι κ U) :
    s.Undisturbed (fun _ _ => True) e := by
  cases e <;> trivial

/-- **A run with synchronous callers is a run of the system**, which draws as often. -/
theorem remote_run {Fair : Remote (Waiter U) I σ τ → Remote.Event ι κ (Waiter U) → Prop}
    (hrequest : ∀ s call, Fair s (.user (.asyncRequest call)))
    (hhandler : ∀ s r handler, Fair s (.user (.setHandler r handler))) {es : List (Event ι κ U)}
    (hfair : (machine U front back).EachStep (Undisturbed Fair) (machine U front back).init es)
    (hs : (machine U front back).run (machine U front back).init es = some s) :
    ∃ ds, (Remote.machine (Waiter U) front back).run (Remote.machine (Waiter U) front back).init
        ds = some s.remote ∧
      (Remote.machine (Waiter U) front back).EachStep Fair
        (Remote.machine (Waiter U) front back).init ds ∧
      Remote.draws ds ≤ draws es := by
  refine Machine.run_simulation (f := SyncRemote.remote) ?_ hfair hs
  intro s e t hundisturbed he
  have hone : ∀ {d : Remote.Event ι κ (Waiter U)},
      Remote.step front back s.remote d = some t.remote → Fair s.remote d →
      d.draws ≤ e.draws →
      ∃ ds, (Remote.machine (Waiter U) front back).run s.remote ds = some t.remote ∧
        (Remote.machine (Waiter U) front back).EachStep Fair s.remote ds ∧
        (ds.map Remote.Event.draws).sum ≤ e.draws := by
    intro d hd hfair hdraws
    exact ⟨[d], (Machine.run_cons _).mpr ⟨_, hd, rfl⟩, ⟨hfair, fun _ _ => trivial⟩,
      by simpa using hdraws⟩
  have hnone : t.remote = s.remote →
      ∃ ds, (Remote.machine (Waiter U) front back).run s.remote ds = some t.remote ∧
        (Remote.machine (Waiter U) front back).EachStep Fair s.remote ds ∧
        (ds.map Remote.Event.draws).sum ≤ e.draws := by
    intro hsame
    exact ⟨[], by rw [hsame]; rfl, trivial, by simp⟩
  have he : SyncRemote.step front back s e = some t := he
  cases e with
  | request typed =>
    obtain ⟨remote, hremote, rfl⟩ := Option.map_eq_some_iff.mp he
    exact hone hremote (hrequest _ _) (le_refl _)
  | getFuture i =>
    simp only [SyncRemote.step] at he
    split at he
    · cases he
    · split at he
      · cases he
      · obtain ⟨remote, hremote, rfl⟩ := Option.map_eq_some_iff.mp he
        exact hone hremote (hhandler _ _ _) (le_refl _)
  | runPosted r =>
    simp only [SyncRemote.step] at he
    split at he
    · cases he
    · obtain ⟨call, -, rfl⟩ := Option.map_eq_some_iff.mp he
      exact hnone rfl
  | timeOut i =>
    obtain ⟨c, -, rfl⟩ := Option.map_eq_some_iff.mp he
    exact hnone rfl
  | get i =>
    obtain ⟨c, -, rfl⟩ := Option.map_eq_some_iff.mp he
    exact hnone rfl
  | other e =>
    simp only [SyncRemote.step] at he
    split at he
    · obtain ⟨remote, hremote, rfl⟩ := Option.map_eq_some_iff.mp he
      exact hone hremote hundisturbed (le_refl _)
    · cases he

theorem inv_run {es : List (Event ι κ U)}
    (hs : (machine U front back).run (machine U front back).init es = some s) : Inv s :=
  Machine.run_invariant (fun _ _ _ h he => h.step he) (inv_init U front back) hs

/-! ## What a caller gets -/

/-- The client reported an error: the promise has it. -/
theorem promised_error {typed : TypedRequest} {error : ErrorInfo} {msg : Message}
    (herror : error.hasError = true) :
    SyncCall.promised typed error msg = some (.error error) := by
  have hthen : thenHandler error msg = .onFailure error := by simp [thenHandler, herror]
  have hcalls : ∀ t : ResultType,
      t.onCompletion (fun _ => none) error msg = [.onFailure error] := by
    intro t
    cases t with
    | void =>
      simp only [ResultType.onCompletion, TypedResponseFuture.onCompletionVoid, hthen]
      rfl
    | value type => simp only [ResultType.onCompletion, TypedResponseFuture.onCompletion, hthen]
  simp [SyncCall.promised, hcalls, TypedCall.content]

variable {W : Type*}

/-- What a synchronous call of `m` may end with: its time was over, the client failed, or
the function was executed for it and it got what the function gave. -/
inductive Ended (m : TypedMethod W) (s : Remote (Waiter U) (Invocation AnyValue) σ τ)
    (request : Nat) (args : Args m.params) : Except ErrorInfo m.result.Value → Prop where
  | timedOut : Ended m s request args (.error (SyncCall.timeout m.name))
  | failed {info : ErrorInfo} {msg : Message}
      (completion : s.client.completion request = some (info, msg))
      (hasError : info.hasError = true) : Ended m s request args (.error info)
  | executed {id : Msgid} {w : W} (idOf : s.client.idOf request = some id)
      (served : { message := packRequest id m.name (Args.pack m.params args)
                  invocation := some (m.invocation w args)
                  response := some (MethodExecutor.respond id (some (m.invocation w args))) } ∈
        s.served) : Ended m s request args (m.told (m.function w args))

/-- A request that the method has executed promises what the function gave. -/
theorem promised_executed {m : TypedMethod W} {server : SimpleMethodServer AnyValue W}
    (hm : server.methods.lookup m.name = some m.executor)
    {remote : Remote (Waiter U) (Invocation AnyValue) σ τ} {request : Nat} {msg : Message}
    {args : Args m.params} {hname : m.name.length < 2 ^ 32}
    {hargs : (Object.array (Args.pack m.params args)).Packable}
    (hasked : remote.client.asked request = some (m.name, Args.pack m.params args))
    (hexecuted : Remote.ExecutedBy server remote request msg) :
    ∃ id w, remote.client.idOf request = some id ∧
      { message := packRequest id m.name (Args.pack m.params args)
        invocation := some (m.invocation w args)
        response := some (MethodExecutor.respond id (some (m.invocation w args))) } ∈
        remote.served ∧
      SyncCall.promised ⟨m.toSignature, args, hname, hargs⟩ {} msg =
        some (m.told (m.function w args)) := by
  obtain ⟨call, m', w, hcall, hid, hm', hserved, hmsg⟩ := hexecuted
  obtain ⟨hmethod, hparams⟩ := Prod.mk.inj (Option.some.inj (hasked.symm.trans hcall))
  rw [← hmethod, hm] at hm'
  obtain rfl := Option.some.inj hm'
  rw [← hmethod, ← hparams, m.invoke_request] at hserved hmsg
  refine ⟨msg.msgid, w, hid, hserved, ?_⟩
  have hcalls := m.onCompletion_answer w msg.msgid args
  rw [hmsg, SyncCall.promised, hcalls]
  cases m.told (m.function w args) <;> rfl

/-- `bool negate(bool)`. -/
def negate : TypedMethod Unit where
  name := ascii "negate"
  params := [.bool]
  result := .value .bool
  function _ args := .ok (not args.1)

def negateServer : SimpleMethodServer AnyValue Unit := .ofMethods [negate.executor]

theorem length_negate : negate.name.length < 2 ^ 32 := by decide

theorem packable_negate :
    (Object.array (Args.pack negate.params (true, ()))).Packable := by decide

/-- `negate(true)`. -/
def negateTrue : TypedRequest := ⟨negate.toSignature, (true, ()), length_negate, packable_negate⟩

/-- One synchronous call, while nothing else happens. -/
def negateOnce : List (Event (Transport.StreamLink.Event (Remote.codecOf .zstd) ⊕ Server.Event Unit)
    (Transport.StreamLink.Event (Remote.codecOf .zstd)) Unit) :=
  [.other (.front (.inr .accept)), .request negateTrue, .other (.user (.register 0)),
    .getFuture 0] ++
    (Remote.carry (packRequest 0 negate.name (Args.pack negate.params (true, ())))).map
      (fun e => .other (.front (.inl e))) ++
    [.other (.front (.inr (.runTask 0 ())))] ++
    (Remote.carry (packResponse 0 (.boolean false))).map (fun e => .other (.back e [0])) ++
    [.runPosted 0, .get 0]

end SyncRemote

end MpRpc
