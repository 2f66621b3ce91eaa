import Mathlib
import MpRpc.Python.ClientLoop

/-!
# ClientRuns — the Python client under any calls

`Client` by itself: its users call `async_request` and `notify` from any threads, and the
C++ side calls `_process_message` and the handlers of `async_send` in any order and any
number of times. Over these runs it is said which responses `_process_message` takes
without an exception, and how long the message IDs of the requests are valid.
-/

namespace MpRpc.Python.Client

variable {msgpack : MsgpackPackage} {s t : Client}

inductive Event where
  /-- `async_request` -/
  | asyncRequest (method : Bytes) (args : List PyObject)
  /-- `notify` -/
  | notify (method : Bytes) (args : List PyObject)
  /-- the outstanding send `i` completes -/
  | sendDone (i : Nat) (err : ErrorInfo)
  /-- `_process_message` -/
  | processMessage (err : ErrorInfo) (data : MessageData)

def step (msgpack : MsgpackPackage) (s : Client) : Event → Option Client
  | .asyncRequest method args => some (s.asyncRequest msgpack method args)
  | .notify method args => some (s.notify msgpack method args)
  | .sendDone i err =>
      match s.sends[i]? with
      | none => none
      | some (handler, _) => some (s.onSent i handler err)
  | .processMessage err data => some (escape (s.processMessage msgpack err data))

/-- The client, from its construction. -/
def machine (msgpack : MsgpackPackage) : Machine Client Event := ⟨{}, step msgpack⟩

theorem step_sendDone {i : Nat} {err : ErrorInfo} (hs : step msgpack s (.sendDone i err) = some t) :
    ∃ handler, t = s.onSent i handler err := by
  cases hi : s.sends[i]? with
  | none => simp [step, hi] at hs
  | some entry =>
    simp only [step, hi, Option.some.injEq] at hs
    exact ⟨entry.1, hs.symm⟩

theorem Wf.step {e : Event} (h : s.Wf) (hs : step msgpack s e = some t) : t.Wf := by
  cases e with
  | asyncRequest method args =>
    cases hs
    exact h.asyncRequest method args
  | notify method args =>
    cases hs
    exact h.notify method args
  | sendDone i err =>
    obtain ⟨handler, rfl⟩ := step_sendDone hs
    exact h.onSent i handler err
  | processMessage err data =>
    cases hs
    exact (h.processMessage msgpack err data).1.escape

theorem wf_of_reachable (h : (machine msgpack).Reachable s) : s.Wf :=
  h.invariant Wf.init fun _ _ _ hwf hs => hwf.step hs

/-! ## A completed future stays as it is -/

/-- The futures that are done are the same afterwards. -/
def Keeps (s t : Client) : Prop :=
  ∀ (r : Nat) (future : PyFuture), s.futures[r]? = some future → future ≠ .running →
    t.futures[r]? = some future

theorem Keeps.refl (s : Client) : Keeps s s := fun _ _ h _ => h

theorem Keeps.trans {u : Client} (h : Keeps s t) (h' : Keeps t u) : Keeps s u :=
  fun r future hr hdone => h' r future (h r future hr hdone) hdone

/-- No request is made, and no future that is done is set. -/
structure Settles (s t : Client) : Prop where
  keeps : Keeps s t
  nextMsgid : t.nextMsgid = s.nextMsgid

namespace Settles

theorem refl (s : Client) : Settles s s := ⟨.refl s, rfl⟩

theorem trans {u : Client} (h : Settles s t) (h' : Settles t u) : Settles s u :=
  ⟨h.keeps.trans h'.keeps, h'.nextMsgid.trans h.nextMsgid⟩

/-- Only a future that is running can be set. -/
theorem settle {r : Nat} {outcome : PyFuture} (h : s.settle r outcome = .ok t) :
    Settles s t := by
  unfold Client.settle at h
  split at h
  · rename_i hrun
    cases h
    refine ⟨?_, rfl⟩
    intro q future hq hdone
    have hne : r ≠ q := by
      intro hrq
      subst hrq
      exact hdone (Option.some.inj (hq.symm.trans hrun))
    show (s.futures.set r outcome)[q]? = some future
    rw [List.getElem?_set_ne hne, hq]
  · cases h

theorem failAll (err : ErrorInfo) (rs : List Nat) (s : Client) :
    Settles s (Client.failAll err rs s).1 := by
  induction rs generalizing s with
  | nil => exact ⟨.refl s, rfl⟩
  | cons r rs ih =>
    cases hset : s.settle r (.exception (.mprpc err)) with
    | ok u =>
      simp only [Client.failAll, hset]
      exact (settle hset).trans (ih u)
    | error raised =>
      simp only [Client.failAll, hset]
      exact refl s

theorem complete (s : Client) (n : Int) (error result : PyObject) :
    Settles s (s.complete n error result).1 := by
  cases hr : s.requests.lookup n with
  | none =>
    simp only [Client.complete, hr]
    exact refl s
  | some r =>
    have herase : Settles s { s with requests := s.requests.erase n } := ⟨.refl s, rfl⟩
    cases hset : Client.settle { s with requests := s.requests.erase n } r
        (outcome error result) with
    | ok u =>
      simp only [Client.complete, hr, hset]
      exact herase.trans (settle hset)
    | error raised =>
      simp only [Client.complete, hr, hset]
      exact herase

theorem receive (s : Client) (err : ErrorInfo) (data : MessageData) :
    Settles s (s.receive msgpack err data).1 := by
  unfold Client.receive
  split
  · exact refl s
  · split
    · exact refl s
    · split
      · exact refl s
      · split
        · exact refl s
        · exact complete s _ _ _
      · exact refl s

theorem processMessage (s : Client) (err : ErrorInfo) (data : MessageData) :
    Settles s (s.processMessage msgpack err data).1 := by
  have hreceive : Settles s (s.receive msgpack err data).1 := receive s err data
  unfold Client.processMessage
  split
  · rename_i u info heq
    rw [heq] at hreceive
    exact hreceive.trans (failAll err _ u)
  · rename_i u parse heq
    rw [heq] at hreceive
    exact hreceive.trans (failAll err _ u)
  · exact hreceive

theorem escape {out : Client × Option Raised} (h : Settles s out.1) :
    Settles s (Client.escape out) := by
  obtain ⟨c, raised⟩ := out
  cases raised with
  | none => exact h
  | some raised => exact ⟨h.keeps, h.nextMsgid⟩

end Settles

/-- `async_request` does not raise: its message is packed and sent. -/
def Sends (msgpack : MsgpackPackage) (s : Client) : Event → Prop
  | .asyncRequest method args =>
      ∃ data, msgpack.packb (packRequest s.nextMsgid method args) = some data
  | _ => False

/-- **A step that sends no request** settles futures at most. -/
theorem settles_of_step {e : Event} (hs : step msgpack s e = some t)
    (hsends : ¬ Sends msgpack s e) : Settles s t := by
  cases e with
  | asyncRequest method args =>
    cases hs
    unfold Client.asyncRequest
    split
    · exact .refl s
    · rename_i data hdata
      exact absurd ⟨data, hdata⟩ hsends
  | notify method args =>
    cases hs
    unfold Client.notify
    split
    · exact .refl s
    · exact ⟨.refl s, rfl⟩
  | sendDone i err =>
    obtain ⟨handler, rfl⟩ := step_sendDone hs
    have herase : Settles s { s with sends := s.sends.eraseIdx i } := ⟨.refl s, rfl⟩
    cases handler with
    | onNotificationSent => exact herase
    | onRequestSent =>
      apply Settles.escape
      unfold Client.onRequestSent
      split
      · exact herase.trans (.failAll err _ _)
      · exact herase
  | processMessage err data =>
    cases hs
    exact (Settles.processMessage s err data).escape

/-- **A request that is sent** gets the next number and a future that is running. -/
theorem step_of_sends {e : Event} (hs : step msgpack s e = some t) (hsends : Sends msgpack s e) :
    Keeps s t ∧ t.nextMsgid = s.nextMsgid + 1 := by
  cases e with
  | asyncRequest method args =>
    obtain ⟨data, hdata⟩ := hsends
    cases hs
    simp only [Client.asyncRequest, hdata, and_true]
    intro r future hr _
    show (s.futures ++ [PyFuture.running])[r]? = some future
    rw [List.getElem?_append_left (List.getElem?_eq_some_iff.mp hr).1, hr]
  | notify _ _ | sendDone _ _ | processMessage _ _ => exact hsends.elim

theorem Keeps.step {e : Event} (hs : step msgpack s e = some t) : Keeps s t := by
  by_cases hsends : Sends msgpack s e
  · exact (step_of_sends hs hsends).1
  · exact (settles_of_step hs hsends).keeps

theorem Keeps.run {es : List Event} (hr : (machine msgpack).run s es = some t) : Keeps s t :=
  Machine.run_relation .refl (fun _ _ _ => .trans) (fun _ _ _ => .step) hr

/-! ## Unexpected responses -/

/-- What is expected of `_process_message` when it is given a response with message ID
`n`: nothing is raised, the requests under other IDs stay as they are, and the future of
the request under this one, if there is one, is removed and completed, once and for all. -/
structure Tolerates (msgpack : MsgpackPackage) (s : Client) (data : MessageData) (n : Int)
    (error result : PyObject) : Prop where
  returns : (s.processMessage msgpack {} data).2 = none
  others : ∀ m r, m ≠ n → s.requests.lookup m = some r →
    (s.processMessage msgpack {} data).1.requests.lookup m = some r ∧
      (s.processMessage msgpack {} data).1.futures[r]? = s.futures[r]?
  own : ∀ r, s.requests.lookup n = some r →
    s.futures[r]? = some .running ∧
      (s.processMessage msgpack {} data).1.requests.lookup n = none ∧
      ∀ es u, (machine msgpack).run (s.processMessage msgpack {} data).1 es = some u →
        u.futures[r]? = some (outcome error result)

/-- **Which responses are tolerated**: exactly those to a request that is pending. -/
theorem tolerates_iff_pending (hs : (machine msgpack).Reachable s) {data : MessageData} {n : Int}
    {error result : PyObject} (hdata : response? msgpack data = some (n, error, result)) :
    Tolerates msgpack s data n error result ↔ n ∈ s.requests := by
  have hwf := wf_of_reachable hs
  constructor
  · intro htolerates
    by_contra hn
    have hreceive := receive_response (s := s) hdata
    rw [Client.complete, AList.lookup_eq_none.mpr hn] at hreceive
    have hraised := htolerates.returns
    simp [Client.processMessage, hreceive] at hraised
  · intro hn
    obtain ⟨r, hr⟩ := Option.isSome_iff_exists.mp (AList.lookup_isSome.mpr hn)
    obtain ⟨hnr, hrun⟩ := (hwf.lookup n r).mp hr
    have hlt : r < s.futures.length := (List.getElem?_eq_some_iff.mp hrun).1
    have hout := hwf.processMessage_response hdata hr
    refine ⟨by rw [hout], ?_, ?_⟩
    · intro m q hm hq
      have hne : r ≠ q := by
        intro hrq
        exact hm (((hwf.lookup m q).mp hq).1.trans (by rw [← hrq, ← hnr]))
      rw [hout]
      exact ⟨(AList.lookup_erase_ne hm).trans hq, List.getElem?_set_ne hne⟩
    · intro q hq
      cases hr.symm.trans hq
      refine ⟨hrun, ?_, ?_⟩
      · rw [hout]
        exact AList.lookup_erase n s.requests
      · intro es u hrest
        refine Keeps.run hrest r _ ?_ (outcome_ne_running error result)
        rw [hout]
        exact List.getElem?_set_self hlt

/-- A request and its response. -/
def answered : List Event :=
  [.asyncRequest (ascii "add") [.int 2, .int 3], .processMessage {} (PythonClient.resultData 0 5)]

/-- The response to the one request is tolerated. -/
theorem tolerates_iff_pending_request :
    ∃ s, (machine msgpackC).run (machine msgpackC).init (answered.take 1) = some s ∧
      0 ∈ s.requests ∧
      Tolerates msgpackC s (PythonClient.resultData 0 5) 0 .none (.int 5) := by
  have hall : ∀ s, (machine msgpackC).run (machine msgpackC).init (answered.take 1) = some s →
      0 ∈ s.requests → Tolerates msgpackC s (PythonClient.resultData 0 5) 0 .none (.int 5) :=
    fun s hs hn => (tolerates_iff_pending ⟨_, hs⟩ rfl).mpr hn
  exact ⟨_, rfl, by decide, hall _ rfl (by decide)⟩

/-- The same response a second time: `KeyError` leaves `_process_message`. -/
theorem answered_twice_raises :
    ∃ s, (machine msgpackC).run (machine msgpackC).init answered = some s ∧
      response? msgpackC (PythonClient.resultData 0 5) = some (0, .none, .int 5) ∧
      (s.processMessage msgpackC {} (PythonClient.resultData 0 5)).2 = some (.key 0) ∧
      ¬ Tolerates msgpackC s (PythonClient.resultData 0 5) 0 .none (.int 5) := by
  have hno : ∀ s : Client,
      (s.processMessage msgpackC {} (PythonClient.resultData 0 5)).2 = some (.key 0) →
      ¬ Tolerates msgpackC s (PythonClient.resultData 0 5) 0 .none (.int 5) := by
    intro s hraised htolerates
    cases hraised.symm.trans htolerates.returns
  exact ⟨_, rfl, rfl, rfl, hno _ rfl⟩

/-! ## How long message IDs are valid -/

/-- A request that is sent is one for `validate_message`. -/
def SendsRequest (msgpack : MsgpackPackage) (s : Client) : Event → Prop
  | .asyncRequest method args =>
      ∀ data, msgpack.packb (packRequest s.nextMsgid method args) = some data →
        ∃ o msgid params, msgpack.unpackb data = some o ∧
          validateMessage o = .ok (.request msgid method params)
  | _ => True

/-- Two requests whose futures are running are registered under different IDs. -/
def DistinctIds (s : Client) : Prop :=
  ∀ q r : Nat, s.futures[q]? = some .running → s.futures[r]? = some .running → q ≠ r →
    ∃ m n, s.requests.lookup m = some q ∧ s.requests.lookup n = some r ∧ m ≠ n

theorem Wf.distinctIds (h : s.Wf) : s.DistinctIds := by
  intro q r hq hr hne
  exact ⟨q, r, (h.lookup q q).mpr ⟨rfl, hq⟩, (h.lookup r r).mpr ⟨rfl, hr⟩, by exact_mod_cast hne⟩

/-- The check of the message ID decides whether the message is a request. -/
theorem validateMessage_packRequest (n : Nat) (method : Bytes) (args : List PyObject) :
    (∃ msgid params, validateMessage (packRequest n method args) =
      .ok (.request msgid method params)) ↔ n < 2 ^ 32 := by
  constructor
  · intro h
    obtain ⟨msgid, params, hvalid⟩ := h
    cases validateMessage_ok_iff.mp hvalid with
    | request _ hid hn =>
      cases hid
      omega
  · intro hn
    exact ⟨.int n, args, validateMessage_ok_iff.mpr (.request rfl rfl (by omega))⟩

theorem sendsRequest_iff (e : Event) :
    SendsRequest msgpack s e ↔ (Sends msgpack s e → s.nextMsgid < 2 ^ 32) := by
  cases e with
  | notify _ _ | sendDone _ _ | processMessage _ _ =>
    exact iff_of_true trivial (fun h => absurd h id)
  | asyncRequest method args =>
    constructor
    · intro hvalid hsends
      obtain ⟨data, hdata⟩ := hsends
      obtain ⟨o, msgid, params, ho, hrequest⟩ := hvalid data hdata
      cases (msgpack.unpackb_packb _ _ hdata).symm.trans ho
      exact (validateMessage_packRequest _ _ _).mp ⟨msgid, params, hrequest⟩
    · intro hsmall data hdata
      obtain ⟨msgid, params, hrequest⟩ :=
        (validateMessage_packRequest s.nextMsgid method args).mpr (hsmall ⟨data, hdata⟩)
      exact ⟨_, msgid, params, msgpack.unpackb_packb _ _ hdata, hrequest⟩

/-- **The counter counts the requests**: no request is sent with a number past the limit
exactly if no more are sent than the limit. -/
theorem few_requests_iff {limit : Nat} {es : List Event} {u : Client}
    (hr : (machine msgpack).run (machine msgpack).init es = some u) :
    (machine msgpack).EachStep (fun s e => Sends msgpack s e → s.nextMsgid < limit)
        (machine msgpack).init es ↔ u.nextMsgid ≤ limit := by
  have hstep : ∀ s e t, (machine msgpack).step s e = some t →
      (Sends msgpack s e ∧ t.nextMsgid = s.nextMsgid + 1) ∨
        ¬ Sends msgpack s e ∧ t.nextMsgid = s.nextMsgid := by
    intro s e t ht
    by_cases hsends : Sends msgpack s e
    · exact .inl ⟨hsends, (step_of_sends ht hsends).2⟩
    · exact .inr ⟨hsends, (settles_of_step ht hsends).nextMsgid⟩
  rw [← Machine.eachState_iff_last (I := fun s => s.nextMsgid ≤ limit) _ hr]
  · symm
    refine Machine.eachState_iff_eachStep (J := fun _ => True) (fun _ _ _ _ _ => trivial) ?_ trivial
      (Nat.zero_le limit) hr
    intro s e t _ hs ht
    rcases hstep s e t ht with ⟨hsends, hnext⟩ | ⟨hsends, hnext⟩
    · rw [hnext]
      exact ⟨fun hlt _ => hlt, fun h => h hsends⟩
    · rw [hnext]
      exact ⟨fun _ h => absurd h hsends, fun _ => hs⟩
  · intro s e t ht hle
    rcases hstep s e t ht with ⟨-, hnext⟩ | ⟨-, hnext⟩
    · omega
    · omega

/-- **Valid and unique message IDs**: along a run every request that is sent passes the
check of the protocol, and pending requests have different IDs, exactly if no request is
sent when 2^32 requests have been; that is, if no more than 2^32 are sent. Each request has
its future. -/
theorem ids_valid_iff_few_requests {es : List Event} {u : Client}
    (hr : (machine msgpack).run (machine msgpack).init es = some u) :
    (((machine msgpack).EachStep (SendsRequest msgpack) (machine msgpack).init es ∧
        (machine msgpack).EachState DistinctIds (machine msgpack).init es) ↔
      (machine msgpack).EachStep (fun s e => Sends msgpack s e → s.nextMsgid < 2 ^ 32)
        (machine msgpack).init es) ∧
    (((machine msgpack).EachStep (SendsRequest msgpack) (machine msgpack).init es ∧
        (machine msgpack).EachState DistinctIds (machine msgpack).init es) ↔
      u.futures.length ≤ 2 ^ 32) := by
  have hstep : ∀ s e t, s.Wf → (machine msgpack).step s e = some t → t.Wf :=
    fun s e t h he => h.step he
  have hdistinct : (machine msgpack).EachState DistinctIds (machine msgpack).init es :=
    Machine.eachState_of_eachStep (J := Wf) (P := fun _ _ => True) hstep
      (fun s e t h he _ => (hstep s e t h he).distinctIds) Wf.init Wf.init.distinctIds
      ((Machine.eachStep_iff_forall hr).mpr fun _ _ => trivial)
  have hvalid : (machine msgpack).EachStep (SendsRequest msgpack) (machine msgpack).init es ↔
      (machine msgpack).EachStep (fun s e => Sends msgpack s e → s.nextMsgid < 2 ^ 32)
        (machine msgpack).init es :=
    Machine.eachStep_congr hstep (fun s e t _ _ => sendsRequest_iff e) Wf.init hr
  rw [and_iff_left hdistinct, (wf_of_reachable ⟨es, hr⟩).length]
  exact ⟨hvalid, hvalid.trans (few_requests_iff hr)⟩

theorem ids_valid_iff_few_requests_answered :
    (machine msgpackC).EachStep (SendsRequest msgpackC) (machine msgpackC).init answered ∧
      (machine msgpackC).EachState DistinctIds (machine msgpackC).init answered := by
  have hrun : ((machine msgpackC).run (machine msgpackC).init answered).map
      (fun u => u.futures.length) = some 1 := by
    decide +kernel
  obtain ⟨u, hu, hlength⟩ := Option.map_eq_some_iff.mp hrun
  refine (ids_valid_iff_few_requests hu).2.mpr ?_
  rw [hlength]
  decide

/-- `async_request` again and again: the counter counts the requests. -/
theorem run_replicate {method : Bytes} {args : List PyObject} {n : Nat}
    (hpack : ∀ k < n, ∃ data, msgpack.packb (packRequest k method args) = some data) :
    ∃ s, (machine msgpack).run (machine msgpack).init
        (List.replicate n (.asyncRequest method args)) = some s ∧ s.nextMsgid = n := by
  induction n with
  | zero => exact ⟨_, rfl, rfl⟩
  | succ n ih =>
    obtain ⟨s, hs, hnext⟩ := ih fun k hk => hpack k (by omega)
    obtain ⟨data, hdata⟩ := hpack n (by omega)
    rw [List.replicate_succ']
    refine ⟨s.asyncRequest msgpack method args,
      (Machine.run_append _).mpr ⟨s, hs, (Machine.run_cons _).mpr ⟨_, rfl, rfl⟩⟩, ?_⟩
    rw [← hnext] at hdata ⊢
    simp only [asyncRequest, hdata]

theorem packb_packRequest {n : Nat} (hn : n < 2 ^ 64) :
    ∃ data, msgpackC.packb (packRequest n (ascii "ping") []) = some data := by
  have hfits : (packRequest n (ascii "ping") []).fits = true := by
    have hname : isUtf8 (ascii "ping") = true := by decide
    simp [packRequest, PyObject.fits, listFits, hname]
    simp [ascii]
    omega
  refine ⟨Msgpack.pack (packRequest n (ascii "ping") []).toObject, ?_⟩
  simp only [msgpackC, hfits, if_true]

/-- One request more than there are message IDs. -/
def tooMany : List Event := List.replicate (2 ^ 32 + 1) (.asyncRequest (ascii "ping") [])

/-- The last of them is sent with the ID 2^32. -/
theorem invalid_id_is_sent :
    ∃ u, (machine msgpackC).run (machine msgpackC).init tooMany = some u ∧
      ¬ ((machine msgpackC).EachStep (SendsRequest msgpackC) (machine msgpackC).init tooMany ∧
        (machine msgpackC).EachState DistinctIds (machine msgpackC).init tooMany) := by
  have hpack : ∀ k < 2 ^ 32 + 1,
      ∃ data, msgpackC.packb (packRequest k (ascii "ping") []) = some data :=
    fun k hk => packb_packRequest (by omega)
  obtain ⟨u, hu, -⟩ := run_replicate hpack
  refine ⟨u, hu, ?_⟩
  intro hall
  -- the state in which the last request is sent
  obtain ⟨s, hs, hnext⟩ := run_replicate fun k hk => hpack k (Nat.lt_succ_of_lt hk)
  have hvalid := hall.1
  rw [tooMany, List.replicate_succ', Machine.eachStep_append hs] at hvalid
  have hsends : Sends msgpackC s (.asyncRequest (ascii "ping") []) := by
    obtain ⟨data, hdata⟩ := hpack (2 ^ 32) (by omega)
    exact ⟨data, hnext ▸ hdata⟩
  have hlt := (sendsRequest_iff _).mp hvalid.2.1 hsends
  omega

end MpRpc.Python.Client
