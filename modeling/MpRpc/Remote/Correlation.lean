import MpRpc.Message.Grammar
import MpRpc.Remote
import MpRpc.System.Steps

/-!
# Correlation — every request gets its own answer

The msgids tie everything together. Those of the requests that were sent are distinct,
every answer was given for one message that was sent, and every response that reaches the
client is that of one answer; so no two responses that are under way or have arrived carry
one msgid. That is why a response never meets a request that is already completed, and
why the client never takes the branch that fails the other requests.
-/

namespace MpRpc

open Msgpack
open Transport (ReadCall)

/-! ## The messages -/

namespace PackableCall

variable (call : PackableCall)

theorem packable_request (id : Msgid) :
    (Object.array [MsgType.request.toObject, msgidObject id, .str call.method,
      .array call.params]).Packable := by
  simpa [Object.packable_array] using ⟨packable_toObject .request, packable_msgidObject id,
    packable_str call.methodSized, Object.packable_array.mp call.paramsPackable⟩

theorem packable_notification :
    (Object.array
      [MsgType.notification.toObject, .str call.method, .array call.params]).Packable := by
  simpa [Object.packable_array] using ⟨packable_toObject .notification,
    packable_str call.methodSized, Object.packable_array.mp call.paramsPackable⟩

end PackableCall

theorem requestId_of_ofData {data : MessageData} {msg : Message}
    (h : Message.ofData data = .ok msg) (ht : msg.type = some .request) :
    requestId data = some msg.msgid := by
  simp [requestId, h, ht]

theorem requestId_packRequest (call : PackableCall) (id : Msgid) :
    requestId (packRequest id call.method call.params) = some id :=
  requestId_of_ofData (ofData_packRequest id call.methodSized call.paramsPackable) rfl

theorem requestId_packNotification (call : PackableCall) :
    requestId (packNotification call.method call.params) = none := by
  unfold requestId
  cases h : Message.ofData (packNotification call.method call.params) with
  | error ex => rfl
  | ok msg =>
    have hp := (Message.ofData_ok_iff call.packable_notification).mp h
    cases hp with
    | notification htype hname => simp

/-- The msgid of a message that can be read. -/
theorem msgidOf_of_isResponse {data : MessageData} {msg : Message}
    (h : Client.IsResponse data msg) : msgidOf data = some msg.msgid := by
  simp [msgidOf, h.1]

namespace Remote

variable {H I σ τ ι κ : Type*} {front : Relay σ ι MessageData (Answer I)}
  {back : Relay τ κ MessageData ReadCall} {OkFront OkBack : MessageData → Prop}
  {Serves : MessageData → Answer I → Prop}

/-- The client's read handler is called with the message. -/
def Delivers (data : MessageData) (call : ReadCall) : Prop := call = .message data

/-- The client's read handler is called with an error. -/
def ReadError (call : ReadCall) : Prop := ∃ info, call = .error info ∧ info.hasError = true

/-- What is asked of the two relays: they take the messages of the client and the
responses, and only a request has a response, which carries its msgid. -/
structure Conforms (OkFront : MessageData → Prop) (Serves : MessageData → Answer I → Prop)
    (OkBack : MessageData → Prop) : Prop where
  request : ∀ (call : PackableCall) (id : Msgid), OkFront (packRequest id call.method call.params)
  notification : ∀ call : PackableCall, OkFront (packNotification call.method call.params)
  message : ∀ data answer, Serves data answer → answer.message = data
  response : ∀ data answer response, Serves data answer → answer.response = some response →
    OkBack response ∧ ∃ msg reply, Message.ofData data = .ok msg ∧ msg.type = some .request ∧
      Client.IsResponse response reply ∧ reply.msgid = msg.msgid

/-! ## The invariant -/

/-- `data` is the request of a registered call, or a notification. -/
def Written (c : Client H) (data : MessageData) : Prop :=
  (∃ (r : Nat) (id : Msgid) (call : PackableCall), c.idOf r = some id ∧
    c.asked r = some (call.method, call.params) ∧
    data = packRequest id call.method call.params) ∨
  ∃ call : PackableCall, data = packNotification call.method call.params

theorem Written.mono {c d : Client H} {data : MessageData} (h : Written c data)
    (hcd : Client.Evolves c d) : Written d data := by
  rcases h with ⟨r, id, call, hid, hasked, hdata⟩ | hdata
  · exact .inl ⟨r, id, call, hcd.idOf r id hid, hcd.asked r _ hasked, hdata⟩
  · exact .inr hdata

/-- The requests that are completed without an error are completed by responses of
`heard`. -/
def CompletedBy (heard : Multiset MessageData) (c : Client H) : Prop :=
  ∀ r error msg, c.completion r = some (error, msg) → error.hasError = false →
    ∃ data ∈ heard, Client.IsResponse data msg ∧ c.idOf r = some msg.msgid

/-- A request that has failed has lost its entry, or reading has ended. -/
def FailedGone (c : Client H) : Prop :=
  ∀ r error msg m, c.completion r = some (error, msg) → error.hasError = true →
    c.requests.lookup m = some r → c.readFailed = true

/-- What holds of the client after `n` values have been drawn from its counter. -/
structure ClientInv (n : Nat) (c : Client H) : Prop where
  client : c.Inv
  drawn : c.Drawn n
  caught : c.caught = []
  reads : c.reads ≤ 1
  ended : c.readFailed = true → c.reads = 0
  asked : ∀ r q, c.asked r = some q → ∃ call : PackableCall, q = (call.method, call.params)
  failed : FailedGone c

structure Inv (LF : front.Ledger OkFront Relay.AnyMove Serves fun _ => False)
    (LB : back.Ledger OkBack Relay.AnyMove Delivers ReadError) (n : Nat) (s : Remote H I σ τ) :
    Prop where
  client : ClientInv n s.client
  written : ∀ data ∈ s.sent, Written s.client data
  once : (s.sent.filterMap requestId).Nodup
  outward : ∃ held origins, LF.Holds s.front held ∧
    Multiset.Rel Serves origins (s.served : Multiset (Answer I)) ∧
    held + origins ≤ (s.sent : Multiset MessageData)
  homeward : ∃ held heard, LB.Holds s.back held ∧
    held + heard ≤ (s.served.filterMap Answer.response : Multiset MessageData) ∧
    CompletedBy heard s.client

theorem clientInv_init : ClientInv 0 ({ reads := 1 } : Client H) where
  client := Client.inv_init.of_same rfl rfl rfl
  drawn := Client.drawn_init 1
  caught := rfl
  reads := Nat.le_refl 1
  ended h := by cases h
  asked r q h := by simp [Client.asked] at h
  failed r error msg m h := by simp [Client.completion, Client.future,
    ResponseFutureData.completion] at h

theorem inv_init (LF : front.Ledger OkFront Relay.AnyMove Serves fun _ => False)
    (LB : back.Ledger OkBack Relay.AnyMove Delivers ReadError) :
    Inv LF LB 0 (machine H front back).init where
  client := clientInv_init
  written := by simp [machine]
  once := by simp [machine]
  outward := ⟨0, 0, LF.init, .zero, by simp⟩
  homeward := by
    refine ⟨0, 0, LB.init, by simp, ?_⟩
    intro r error msg h
    simp [machine, Client.completion, Client.future, ResponseFutureData.completion] at h

variable {LF : front.Ledger OkFront Relay.AnyMove Serves fun _ => False}
  {LB : back.Ledger OkBack Relay.AnyMove Delivers ReadError} {n : Nat} {s t : Remote H I σ τ}

theorem ok_of_written (hc : Conforms OkFront Serves OkBack) {c : Client H} {data : MessageData}
    (h : Written c data) : OkFront data := by
  rcases h with ⟨r, id, call, -, -, rfl⟩ | ⟨call, rfl⟩
  · exact hc.request call id
  · exact hc.notification call

theorem Inv.ok_of_le (h : Inv LF LB n s) (hc : Conforms OkFront Serves OkBack)
    {held : Multiset MessageData} (hle : held ≤ (s.sent : Multiset MessageData)) :
    ∀ data ∈ held, OkFront data := fun data hdata =>
  ok_of_written hc (h.written data (Multiset.mem_coe.mp (Multiset.mem_of_le hle hdata)))

/-- A response that was given belongs to a message that was served. -/
theorem exists_served {origins : Multiset MessageData} {served : List (Answer I)}
    (hrel : Multiset.Rel Serves origins (served : Multiset (Answer I))) {response : MessageData}
    (h : response ∈ served.filterMap Answer.response) :
    ∃ data ∈ origins, ∃ answer ∈ served, Serves data answer ∧ answer.response = some response := by
  obtain ⟨answer, hanswer, hresponse⟩ := List.mem_filterMap.mp h
  obtain ⟨data, hdata, hserves⟩ :=
    Multiset.exists_mem_of_rel_of_mem (Multiset.rel_flip.mpr hrel) (Multiset.mem_coe.mpr hanswer)
  exact ⟨data, hdata, answer, hanswer, hserves, hresponse⟩

theorem ok_of_response (hc : Conforms OkFront Serves OkBack) {origins : Multiset MessageData}
    {served : List (Answer I)}
    (hrel : Multiset.Rel Serves origins (served : Multiset (Answer I)))
    {held : Multiset MessageData}
    (hle : held ≤ (served.filterMap Answer.response : Multiset MessageData)) :
    ∀ data ∈ held, OkBack data := by
  intro data hdata
  obtain ⟨q, -, answer, -, hserves, hresponse⟩ :=
    exists_served hrel (Multiset.mem_coe.mp (Multiset.mem_of_le hle hdata))
  exact (hc.response q answer data hserves hresponse).1

/-- **The msgids of the responses are among those of the requests**, each as often. -/
theorem responseIds_le (hc : Conforms OkFront Serves OkBack) {origins : Multiset MessageData}
    {served : Multiset (Answer I)} (hrel : Multiset.Rel Serves origins served) :
    (served.filterMap Answer.response).filterMap msgidOf ≤ origins.filterMap requestId := by
  induction hrel with
  | zero => simp
  | @cons data answer origins served hserves hrel ih =>
    cases hresponse : answer.response with
    | none =>
      rw [Multiset.filterMap_cons_none _ _ hresponse]
      cases hid : requestId data with
      | none => rwa [Multiset.filterMap_cons_none _ _ hid]
      | some id =>
        rw [Multiset.filterMap_cons_some _ _ _ hid]
        exact ih.trans (Multiset.le_cons_self _ id)
    | some response =>
      obtain ⟨-, msg, reply, hmsg, htype, hreply, hsame⟩ :=
        hc.response data answer response hserves hresponse
      rw [Multiset.filterMap_cons_some _ _ _ hresponse,
        Multiset.filterMap_cons_some _ _ _ (msgidOf_of_isResponse hreply),
        Multiset.filterMap_cons_some _ _ _ (requestId_of_ofData hmsg htype), hsame]
      exact Multiset.cons_le_cons _ ih

/-- **No two responses carry one msgid.** -/
theorem Inv.nodup_responseIds (h : Inv LF LB n s) (hc : Conforms OkFront Serves OkBack) :
    ((s.served.filterMap Answer.response : Multiset MessageData).filterMap msgidOf).Nodup := by
  obtain ⟨held, origins, -, hrel, hle⟩ := h.outward
  have hids : ((s.sent : Multiset MessageData).filterMap requestId).Nodup := by
    rw [Multiset.filterMap_coe]
    exact Multiset.coe_nodup.mpr h.once
  have horigins : origins ≤ (s.sent : Multiset MessageData) :=
    (Multiset.le_add_left origins held).trans hle
  have hresponses := responseIds_le hc hrel
  rw [Multiset.filterMap_coe] at hresponses
  exact Multiset.nodup_of_le (hresponses.trans (Multiset.filterMap_le_filterMap _ horigins)) hids

/-- **A response never meets a completed request**: its request would have been completed
by another response with its msgid, or by an error after which nothing is read. -/
theorem Inv.pending_of_response (h : Inv LF LB n s) (hc : Conforms OkFront Serves OkBack)
    (hreads : 0 < s.client.reads) {data : MessageData} {rest heard : Multiset MessageData}
    (hle : data ::ₘ rest + heard ≤ (s.served.filterMap Answer.response : Multiset MessageData))
    (hheard : CompletedBy heard s.client) {msg : Message} (hmsg : Client.IsResponse data msg) :
    ∀ r, s.client.requests.lookup msg.msgid = some r → s.client.completion r = none := by
  intro r hr
  cases hv : s.client.completion r with
  | none => rfl
  | some v =>
    obtain ⟨error, msg'⟩ := v
    cases herror : error.hasError with
    | true =>
      have hended := h.client.ended (h.client.failed r error msg' _ hv herror hr)
      omega
    | false =>
      obtain ⟨data', hdata', hmsg', hid⟩ := hheard r error msg' hv herror
      -- both responses carry the msgid under which `r` is registered
      have hsame : msg'.msgid = msg.msgid := by
        rw [h.client.client.entry _ r hr] at hid
        exact (Option.some.inj hid).symm
      have hnodup := Multiset.nodup_of_le (Multiset.filterMap_le_filterMap msgidOf hle)
        (h.nodup_responseIds hc)
      rw [Multiset.cons_add, Multiset.filterMap_cons_some _ _ _ (msgidOf_of_isResponse hmsg),
        Multiset.nodup_cons, Multiset.mem_filterMap] at hnodup
      refine absurd ⟨data', Multiset.mem_add.mpr (.inr hdata'), ?_⟩ hnodup.1
      rw [msgidOf_of_isResponse hmsg', hsame]

/-! ## A step of the client -/

section User

variable {c d : Client H} {e : Client.UserEvent H}

open Client (Effect)

theorem FailedGone.effect (h : FailedGone c) (hc : c.Inv) (hsame : d.readFailed = c.readFailed)
    {sent : List MessageData} (he : Effect e c d sent) : FailedGone d := by
  intro r error msg m hcompletion herror hentry
  rw [hsame]
  cases he with
  | rests same | notifies same _ _ =>
    rw [same.completion] at hcompletion
    rw [same.requests] at hentry
    exact h r error msg m hcompletion herror hentry
  | @registers r' id method params hreg =>
    rw [hreg.completion] at hcompletion
    rw [hreg.requests] at hentry
    by_cases hm : m = id
    · -- a request that is just registered has no completion
      subst hm
      rw [AList.lookup_insert] at hentry
      rw [← Option.some.inj hentry, hc.fresh r' hreg.unregistered] at hcompletion
      cases hcompletion
    · rw [AList.lookup_insert_ne hm] at hentry
      exact h r error msg m hcompletion herror hentry
  | @fails r' m' error' _ herror' entry requests idOf pending failed others =>
    rw [requests] at hentry
    by_cases hm : m = m'
    · subst hm
      rw [AList.lookup_erase] at hentry
      cases hentry
    · rw [AList.lookup_erase_ne hm] at hentry
      by_cases hr : r = r'
      · -- its one entry is the one that was erased
        subst hr
        have hid := hc.entry m r hentry
        rw [hc.entry m' r entry] at hid
        exact absurd (Option.some.inj hid).symm hm
      · rw [others r hr] at hcompletion
        exact h r error msg m hcompletion herror hentry

theorem CompletedBy.effect {heard : Multiset MessageData} (h : CompletedBy heard c)
    (hevolves : Client.Evolves c d) {sent : List MessageData}
    (he : Effect e c d sent) : CompletedBy heard d := by
  have hkeep : ∀ r error msg, c.completion r = some (error, msg) → error.hasError = false →
      ∃ data ∈ heard, Client.IsResponse data msg ∧ d.idOf r = some msg.msgid := by
    intro r error msg hcompletion herror
    obtain ⟨data, hdata, hmsg, hid⟩ := h r error msg hcompletion herror
    exact ⟨data, hdata, hmsg, hevolves.idOf r _ hid⟩
  intro r error msg hcompletion herror
  cases he with
  | rests same | notifies same _ _ => exact hkeep r error msg (same.completion ▸ hcompletion) herror
  | registers hreg => exact hkeep r error msg (hreg.completion ▸ hcompletion) herror
  | @fails r' m' error' _ herror' entry requests idOf pending failed others =>
    by_cases hr : r = r'
    · subst hr
      rw [failed] at hcompletion
      cases hcompletion
      rw [herror] at herror'
      cases herror'
    · exact hkeep r error msg (others r hr ▸ hcompletion) herror

/-- **A step of the client by itself** keeps its invariant. -/
theorem ClientInv.user (h : ClientInv n c) (hn : n + e.toClient.draws ≤ 2 ^ 32)
    (he : c.step e.toClient = some d) : ClientInv (n + e.toClient.draws) d := by
  obtain ⟨heffect, hasks, hreading⟩ := Client.effect_user h.client he
  refine ⟨(h.client.step he).1, h.drawn.step hn he, hreading.caught.trans h.caught,
    hreading.reads ▸ h.reads, ?_, ?_, h.failed.effect h.client hreading.readFailed heffect⟩
  · intro hended
    rw [hreading.reads]
    exact h.ended (hreading.readFailed ▸ hended)
  · intro r q hq
    rcases hasks r q hq with hold | ⟨call, -, hnew⟩
    · exact h.asked r q hold
    · exact ⟨call, hnew⟩

/-- The messages that a step of the client writes are requests that it registers and
notifications. -/
theorem ClientInv.written (h : ClientInv n c) (hevolves : Client.Evolves c d)
    {sent : List MessageData} (he : Effect e c d sent) : ∀ data ∈ sent, Written d data := by
  intro data hdata
  cases he with
  | rests | fails => cases hdata
  | notifies _ call _ => exact .inr ⟨call, List.mem_singleton.mp hdata⟩
  | @registers r id method params hreg =>
    obtain ⟨call, hcall⟩ := h.asked r _ hreg.asked
    cases hcall
    exact .inl ⟨r, id, call, hreg.idOf_self, hevolves.asked r _ hreg.asked,
      List.mem_singleton.mp hdata⟩

/-- A request that is registered has a msgid that no message has been sent with. -/
theorem once_append (hdrawn : d.Drawn n) {sent new : List MessageData}
    (hasked : ∀ r q, c.asked r = some q → ∃ call : PackableCall, q = (call.method, call.params))
    (hevolves : Client.Evolves c d) (hwritten : ∀ data ∈ sent, Written c data)
    (honce : (sent.filterMap requestId).Nodup) (he : Effect e c d new) :
    ((sent ++ new).filterMap requestId).Nodup := by
  rw [List.filterMap_append]
  cases he with
  | rests | fails => simpa using honce
  | notifies _ call _ =>
    rw [List.filterMap_cons_none (requestId_packNotification call)]
    simpa using honce
  | @registers r id method params hreg =>
    obtain ⟨call, hcall⟩ := hasked r _ hreg.asked
    cases hcall
    rw [List.filterMap_cons_some (requestId_packRequest call id), List.filterMap_nil]
    refine honce.append (List.nodup_singleton id) ?_
    rw [List.disjoint_singleton]
    intro hmem
    obtain ⟨data, hdata, hid⟩ := List.mem_filterMap.mp hmem
    rcases hwritten data hdata with ⟨r', id', call', hr', -, rfl⟩ | ⟨call', rfl⟩
    · rw [requestId_packRequest] at hid
      cases hid
      have hsame : r' = r := hdrawn.idOf_injective (hevolves.idOf r' id hr') hreg.idOf_self
      rw [hsame, hreg.unregistered] at hr'
      cases hr'
    · rw [requestId_packNotification] at hid
      cases hid

/-- **An event of the user, of a thread in `async_request` or of a write.** -/
theorem Inv.user_step (h : Inv LF LB n s) (hc : Conforms OkFront Serves OkBack)
    (hn : n + e.toClient.draws ≤ 2 ^ 32) (hs : step front back s (.user e) = some t) :
    Inv LF LB (n + e.toClient.draws) t := by
  obtain ⟨client, he, hs⟩ := Option.bind_eq_some_iff.mp hs
  obtain ⟨u, hu, rfl⟩ := Option.map_eq_some_iff.mp hs
  have hevolves := (h.client.client.step he).2
  have heffect := (Client.effect_user h.client.client he).1
  have hclient := h.client.user hn he
  have hnew := h.client.written hevolves heffect
  refine ⟨hclient, ?_, once_append hclient.drawn h.client.asked hevolves h.written h.once heffect,
    ?_, ?_⟩
  · intro data hdata
    rcases List.mem_append.mp hdata with hold | hdata
    · exact (h.written data hold).mono hevolves
    · exact hnew data hdata
  · obtain ⟨held, origins, hheld, hrel, hle⟩ := h.outward
    refine ⟨held + _, origins, LF.putAll hheld (fun x hx => ok_of_written hc (hnew x hx)) ?_ hu,
      hrel, ?_⟩
    · exact h.ok_of_le hc ((Multiset.le_add_right held origins).trans hle)
    · rw [add_right_comm, ← Multiset.coe_add]
      exact add_le_add_left hle _
  · obtain ⟨held, heard, hheld, hle, hcompleted⟩ := h.homeward
    exact ⟨held, heard, hheld, hle, hcompleted.effect hevolves heffect⟩

end User

/-! ## A move of a relay -/

/-- **A move on the way to the server, or of the server.** -/
theorem Inv.front_step (h : Inv LF LB n s) (hc : Conforms OkFront Serves OkBack) {i : ι}
    (hs : step front back s (.front i) = some t) : Inv LF LB n t := by
  obtain ⟨held, origins, hheld, hrel, hle⟩ := h.outward
  obtain ⟨held', heard, hheld', hle', hcompleted⟩ := h.homeward
  have hok := h.ok_of_le hc ((Multiset.le_add_right held origins).trans hle)
  simp only [step] at hs
  split at hs
  · cases hs
  · rename_i u hu
    cases hs
    exact ⟨h.client, h.written, h.once, ⟨held, origins, LF.silent hheld hok trivial hu, hrel, hle⟩,
      h.homeward⟩
  · rename_i u answer hu
    obtain ⟨v, hv, rfl⟩ := Option.map_eq_some_iff.mp hs
    rcases LF.gives hheld hok trivial hu with ⟨data, rest, rfl, hserves, hrest⟩ | ⟨hfalse, -⟩
    · have hall : Multiset.Rel Serves (data ::ₘ origins)
          ((s.served ++ [answer] : List (Answer I)) : Multiset (Answer I)) := by
        rw [← Multiset.coe_add, Multiset.coe_singleton, Multiset.add_comm, Multiset.singleton_add]
        exact .cons hserves hrel
      refine ⟨h.client, h.written, h.once, ⟨rest, data ::ₘ origins, hrest, hall, ?_⟩, ?_⟩
      · rw [Multiset.add_cons, ← Multiset.cons_add]
        exact hle
      · have hresponse : ∀ x ∈ answer.response.toList, OkBack x := by
          intro x hx
          exact (hc.response data answer x hserves (Option.mem_toList.mp hx)).1
        have hback := ok_of_response hc hrel ((Multiset.le_add_right held' heard).trans hle')
        refine ⟨held' + _, heard, LB.putAll hheld' hresponse hback hv, ?_, hcompleted⟩
        rw [List.filterMap_append, ← Multiset.coe_add, add_right_comm]
        refine add_le_add hle' (le_of_eq ?_)
        cases hanswer : answer.response <;> simp [hanswer]
    · exact hfalse.elim

/-- What a completed read has to keep for the invariant of the client. -/
theorem ClientInv.readDone {c d : Client H} (h : ClientInv n c) (hn : n ≤ 2 ^ 32)
    {error : ErrorInfo} {data : MessageData} {order : List Msgid}
    (hs : c.step (.readDone error data order) = some d) (hasked : ∀ r, d.asked r = c.asked r)
    (hcaught : d.caught = c.caught) (hreads : d.reads ≤ c.reads)
    (hended : d.readFailed = true → d.reads = 0) (hfailed : FailedGone d) : ClientInv n d where
  client := (h.client.step hs).1
  drawn := h.drawn.step (by simpa [Client.Event.draws] using hn) hs
  caught := hcaught.trans h.caught
  reads := hreads.trans h.reads
  ended := hended
  asked r q hq := h.asked r q (hasked r ▸ hq)
  failed := hfailed

/-- One response more has been heard. -/
theorem CompletedBy.response {c d : Client H} {heard : Multiset MessageData}
    (h : CompletedBy heard c) (hc : c.Inv) {data : MessageData} {msg : Message}
    (hmsg : Client.IsResponse data msg) (hidOf : d.idOf = c.idOf)
    (hnew : ∀ r, c.requests.lookup msg.msgid = some r → d.completion r = some ({}, msg))
    (hold : ∀ r, c.requests.lookup msg.msgid ≠ some r → d.completion r = c.completion r) :
    CompletedBy (data ::ₘ heard) d := by
  intro r error msg' hv herror
  by_cases hr : c.requests.lookup msg.msgid = some r
  · rw [hnew r hr] at hv
    cases hv
    exact ⟨data, Multiset.mem_cons_self data heard, hmsg, hidOf ▸ hc.entry _ r hr⟩
  · obtain ⟨data', hdata', hmsg', hid⟩ := h r error msg' (hold r hr ▸ hv) herror
    exact ⟨data', Multiset.mem_cons_of_mem hdata', hmsg', hidOf ▸ hid⟩

/-- **A response is read.** -/
theorem Inv.read_message (h : Inv LF LB n s) (hc : Conforms OkFront Serves OkBack)
    (hn : n ≤ 2 ^ 32) {u : τ}
    {client : Client H} {data : MessageData} {rest heard : Multiset MessageData}
    {order : List Msgid} (hrest : LB.Holds u rest)
    (hle : data ::ₘ rest + heard ≤ (s.served.filterMap Answer.response : Multiset MessageData))
    (hcompleted : CompletedBy heard s.client)
    (hs : s.client.step (.readDone {} data order) = some client) :
    Inv LF LB n { s with client, back := u } := by
  obtain ⟨held, origins, hheld, hrel, hle'⟩ := h.outward
  have hmem : data ∈ s.served.filterMap Answer.response :=
    Multiset.mem_coe.mp (Multiset.mem_of_le hle (by simp))
  obtain ⟨q, -, answer, -, hserves, hresponse⟩ := exists_served hrel hmem
  obtain ⟨-, -, msg, -, -, hmsg, -⟩ := hc.response q answer data hserves hresponse
  have hreads : 0 < s.client.reads := by
    by_contra hzero
    simp [Client.step, hzero] at hs
  have hpending := h.pending_of_response hc hreads hle hcompleted hmsg
  obtain ⟨hrequests, hidOf, hasked, hreading, hnew, hold⟩ :=
    Client.read_response h.client.client hmsg hpending hs
  have hevolves := (h.client.client.step hs).2
  have hfailed : FailedGone client := by
    intro r error msg' m hv herror hentry
    rw [hreading.readFailed]
    by_cases hr : s.client.requests.lookup msg.msgid = some r
    · rw [hnew r hr] at hv
      cases hv
      simp at herror
    · exact h.client.failed r error msg' m (hold r hr ▸ hv) herror (hrequests ▸ hentry)
  have hclient := h.client.readDone hn hs hasked hreading.caught (le_of_eq hreading.reads)
    (fun hended => hreading.reads ▸ h.client.ended (hreading.readFailed ▸ hended)) hfailed
  refine ⟨hclient, fun x hx => (h.written x hx).mono hevolves, h.once, h.outward, rest,
    data ::ₘ heard, hrest, ?_, ?_⟩
  · rw [Multiset.add_cons, ← Multiset.cons_add]
    exact hle
  · exact hcompleted.response h.client.client hmsg hidOf hnew hold

/-- **Reading fails.** -/
theorem Inv.read_failed (h : Inv LF LB n s) (hn : n ≤ 2 ^ 32) {u : τ} {client : Client H}
    {info : ErrorInfo} {held heard : Multiset MessageData} {order : List Msgid}
    (hinfo : info.hasError = true) (hheld : LB.Holds u held)
    (hle : held + heard ≤ (s.served.filterMap Answer.response : Multiset MessageData))
    (hcompleted : CompletedBy heard s.client)
    (hs : s.client.step (.readDone info [] order) = some client) :
    Inv LF LB n { s with client, back := u } := by
  obtain ⟨-, hidOf, hasked, hreads, hended, hcaught, hcompletion⟩ :=
    Client.read_error h.client.client hinfo hs
  have hevolves := (h.client.client.step hs).2
  have hone := h.client.reads
  have hnone : client.reads = 0 := by omega
  refine ⟨h.client.readDone hn hs hasked hcaught (by rw [hnone]; omega) (fun _ => hnone) ?_,
    fun x hx => (h.written x hx).mono hevolves, h.once, h.outward, held, heard, hheld, hle, ?_⟩
  · intro r error msg m _ _ _
    exact hended
  · intro r error msg hv herror
    rcases hcompletion r with hold | hnew
    · obtain ⟨data, hdata, hmsg, hid⟩ := hcompleted r error msg (hold ▸ hv) herror
      exact ⟨data, hdata, hmsg, hidOf ▸ hid⟩
    · rw [hnew] at hv
      cases hv
      rw [herror] at hinfo
      cases hinfo

/-- **A move on the way to the client.** -/
theorem Inv.back_step (h : Inv LF LB n s) (hc : Conforms OkFront Serves OkBack)
    (hn : n ≤ 2 ^ 32) {i : κ} {order : List Msgid}
    (hs : step front back s (.back i order) = some t) : Inv LF LB n t := by
  obtain ⟨-, origins, -, hrel, -⟩ := h.outward
  obtain ⟨held, heard, hheld, hle, hcompleted⟩ := h.homeward
  have hok := ok_of_response hc hrel ((Multiset.le_add_right held heard).trans hle)
  simp only [step] at hs
  split at hs
  · cases hs
  · rename_i u hu
    cases hs
    exact ⟨h.client, h.written, h.once, h.outward, held, heard, LB.silent hheld hok trivial hu, hle,
      hcompleted⟩
  · rename_i u call hu
    obtain ⟨client, he, rfl⟩ := Option.map_eq_some_iff.mp hs
    rcases LB.gives hheld hok trivial hu with
      ⟨data, rest, rfl, rfl, hrest⟩ | ⟨⟨info, rfl, hinfo⟩, hsame⟩
    · exact h.read_message hc hn hrest hle hcompleted he
    · exact h.read_failed hn hinfo hsame hle hcompleted he

theorem Inv.step {e : Event ι κ H} (h : Inv LF LB n s) (hc : Conforms OkFront Serves OkBack)
    (hn : n + e.draws ≤ 2 ^ 32) (hs : (machine H front back).step s e = some t) :
    Inv LF LB (n + e.draws) t := by
  cases e with
  | user e => exact h.user_step hc hn hs
  | front i => exact h.front_step hc hs
  | back i order => exact h.back_step hc hn hs

/-! ## Whole runs -/

/-- **The invariant holds in every run** that draws at most 2^32 values from the counter. -/
theorem inv_run (hc : Conforms OkFront Serves OkBack) {es : List (Event ι κ H)}
    (hn : n + draws es ≤ 2 ^ 32) (h : Inv LF LB n s)
    (hs : (machine H front back).run s es = some t) : Inv LF LB (n + draws es) t := by
  induction es generalizing n s with
  | nil =>
    cases hs
    simpa [draws] using h
  | cons e es ih =>
    obtain ⟨u, hu, hs⟩ := (Machine.run_cons _).mp hs
    have hsum : draws (e :: es) = e.draws + draws es := by simp [draws]
    rw [hsum, ← Nat.add_assoc] at hn ⊢
    exact ih hn (h.step hc (by omega) hu) hs

/-- **The completed requests and the served messages agree.** -/
theorem Inv.correlated (h : Inv LF LB n s) (hc : Conforms OkFront Serves OkBack) :
    s.Correlated := by
  obtain ⟨held', origins, -, hrel, hle⟩ := h.outward
  obtain ⟨held, heard, -, hle', hcompleted⟩ := h.homeward
  have horigins : origins ≤ (s.sent : Multiset MessageData) :=
    (Multiset.le_add_left origins held').trans hle
  have hmessages : (s.served.map Answer.message : Multiset MessageData) = origins := by
    have hmap := (Multiset.rel_map_right (f := Answer.message) (r := Eq)).mpr
      (hrel.mono fun data _ answer _ hserves => (hc.message data answer hserves).symm)
    rw [Multiset.rel_eq] at hmap
    rw [hmap, Multiset.map_coe]
  have hatMostOnce : (s.served.map Answer.message : Multiset MessageData) ≤ s.sent := by
    rw [hmessages]
    exact horigins
  refine ⟨?_, hatMostOnce, ?_, h.client.caught⟩
  · intro r error msg hv herror
    obtain ⟨data, hdata, hmsg, hid⟩ := hcompleted r error msg hv herror
    have hresponse : data ∈ s.served.filterMap Answer.response :=
      Multiset.mem_coe.mp (Multiset.mem_of_le
        ((Multiset.le_add_left heard held).trans hle') hdata)
    obtain ⟨q, hq, answer, hanswer, hserves, hgiven⟩ := exists_served hrel hresponse
    obtain ⟨-, qmsg, reply, hqmsg, htype, hreply, hsame⟩ :=
      hc.response q answer data hserves hgiven
    have hmsgs : reply = msg := Except.ok.inj (hreply.1.symm.trans hmsg.1)
    subst hmsgs
    -- the message that was answered is the request that was sent under this msgid
    rcases h.written q (Multiset.mem_coe.mp (Multiset.mem_of_le horigins hq)) with
      ⟨r', id, call, hr', hasked, rfl⟩ | ⟨call, rfl⟩
    · have hqid := requestId_of_ofData hqmsg htype
      rw [requestId_packRequest, ← hsame] at hqid
      cases hqid
      have hr : r' = r := h.client.drawn.idOf_injective hr' hid
      subst hr
      exact ⟨answer, hanswer, ⟨call, hasked, hid, hc.message _ _ hserves⟩,
        data, hgiven, hmsg⟩
    · have hqid := requestId_of_ofData hqmsg htype
      rw [requestId_packNotification] at hqid
      cases hqid
  · have hids := Multiset.filterMap_le_filterMap requestId hatMostOnce
    rw [Multiset.filterMap_coe, Multiset.filterMap_coe] at hids
    exact Multiset.coe_nodup.mp (Multiset.nodup_of_le hids (Multiset.coe_nodup.mpr h.once))

/-- A request has one answer. -/
theorem Correlated.answer_unique (h : s.Correlated) {a b : Answer I} (ha : a ∈ s.served)
    (hb : b ∈ s.served) {id : Msgid} (hida : requestId a.message = some id)
    (hidb : requestId b.message = some id) : a = b := by
  by_contra hne
  have honce := h.executedOnce
  rw [List.filterMap_map, List.Nodup, List.pairwise_filterMap] at honce
  have hsymm : Std.Symm fun x y : Answer I => ∀ id ∈ (requestId ∘ Answer.message) x,
      ∀ id' ∈ (requestId ∘ Answer.message) y, id ≠ id' :=
    ⟨fun x y hxy id hy id' hx heq => hxy id' hx id hy heq.symm⟩
  exact honce.forall ha hb hne id hida id hidb rfl

/-- Every answer is one that the server may give to its message. -/
theorem Inv.serves (h : Inv LF LB n s) (hc : Conforms OkFront Serves OkBack) :
    ∀ answer ∈ s.served, Serves answer.message answer := by
  intro answer hanswer
  obtain ⟨held, origins, -, hrel, -⟩ := h.outward
  obtain ⟨data, -, hserves⟩ :=
    Multiset.exists_mem_of_rel_of_mem (Multiset.rel_flip.mpr hrel) (Multiset.mem_coe.mpr hanswer)
  rw [hc.message data answer hserves]
  exact hserves

/-- **Requests and answers correspond** at the end of every run. -/
theorem correlated_of_run (LF : front.Ledger OkFront Relay.AnyMove Serves fun _ => False)
    (LB : back.Ledger OkBack Relay.AnyMove Delivers ReadError) (hc : Conforms OkFront Serves OkBack)
    {es : List (Event ι κ H)} (hn : draws es ≤ 2 ^ 32)
    (hs : (machine H front back).run (machine H front back).init es = some t) :
    t.Correlated ∧ ∀ answer ∈ t.served, Serves answer.message answer := by
  have h := inv_run hc (by omega) (inv_init LF LB) hs
  exact ⟨h.correlated hc, h.serves hc⟩

end Remote

end MpRpc
