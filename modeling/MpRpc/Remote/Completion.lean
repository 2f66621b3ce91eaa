import MpRpc.Relay.Tally
import MpRpc.Remote.Correlation

/-!
# Completion — every request gets an answer

`Correlation` says that the answer a request gets is its own. Here nothing fails: the
writes succeed, and the relays have a `Tally`. Then no request loses its entry in
`requests_`, every message that is sent is under way or served, and every response is
under way or has completed its request. When both relays are settled, every request is
completed whose message the server must answer.
-/

namespace MpRpc.Remote

open Transport (ReadCall)

variable {H I σ τ ι κ : Type*} {front : Relay σ ι MessageData (Answer I)}
  {back : Relay τ κ MessageData ReadCall} {OkFront OkBack : MessageData → Prop}
  {Serves Answers : MessageData → Answer I → Prop} {FairFront : σ → ι → Prop}
  {FairBack : τ → κ → Prop} {SettledFront : σ → Prop} {SettledBack : τ → Prop}

/-- Nothing fails in this event. -/
def Undisturbed (FairFront : σ → ι → Prop) (FairBack : τ → κ → Prop) (s : Remote H I σ τ) :
    Event ι κ H → Prop
  | .user e => e.Succeeds
  | .front i => FairFront s.front i
  | .back i _ => FairBack s.back i

instance [∀ a, DecidablePred (FairFront a)] [∀ b, DecidablePred (FairBack b)]
    (s : Remote H I σ τ) : DecidablePred (s.Undisturbed FairFront FairBack)
  | .user e => inferInstanceAs (Decidable e.Succeeds)
  | .front i => inferInstanceAs (Decidable (FairFront s.front i))
  | .back i _ => inferInstanceAs (Decidable (FairBack s.back i))

/-- Every response of `heard` has completed its request. -/
def Completes (heard : Multiset MessageData) (c : Client H) : Prop :=
  ∀ data ∈ heard, ∃ r msg, Client.IsResponse data msg ∧ c.idOf r = some msg.msgid ∧
    c.completion r = some ({}, msg)

theorem Completes.mono {heard : Multiset MessageData} {c d : Client H} (h : Completes heard c)
    (hcd : Client.Evolves c d) : Completes heard d := by
  intro data hdata
  obtain ⟨r, msg, hmsg, hid, hcompletion⟩ := h data hdata
  exact ⟨r, msg, hmsg, hcd.idOf r _ hid, hcd.completion r _ hcompletion⟩

/-- What holds of the client while nothing fails. -/
structure Unharmed (sent : List MessageData) (c : Client H) : Prop where
  /-- No request has lost its entry. -/
  entry : ∀ r id, c.idOf r = some id → c.requests.lookup id = some r
  /-- The message of every registered request was sent. -/
  sent : ∀ r id, c.idOf r = some id → ∃ call : PackableCall,
    c.asked r = some (call.method, call.params) ∧ packRequest id call.method call.params ∈ sent
  /-- No request has failed. -/
  succeeded : ∀ r error msg, c.completion r = some (error, msg) → error.hasError = false

/-- Everything is accounted for. -/
structure Whole (TF : front.Tally OkFront FairFront Answers SettledFront)
    (TB : back.Tally OkBack FairBack Delivers SettledBack) (s : Remote H I σ τ) : Prop where
  client : Unharmed s.sent s.client
  outward : ∃ held origins, TF.Holds s.front held ∧
    Multiset.Rel Answers origins (s.served : Multiset (Answer I)) ∧
    (s.sent : Multiset MessageData) = held + origins
  homeward : ∃ held heard, TB.Holds s.back held ∧
    (s.served.filterMap Answer.response : Multiset MessageData) = held + heard ∧
    CompletedBy heard s.client ∧ Completes heard s.client

theorem unharmed_init : Unharmed [] ({ reads := 1 } : Client H) where
  entry r id h := by simp [Client.idOf, Client.phase] at h
  sent r id h := by simp [Client.idOf, Client.phase] at h
  succeeded r error msg h := by simp [Client.completion, Client.future,
    ResponseFutureData.completion] at h

theorem whole_init (TF : front.Tally OkFront FairFront Answers SettledFront)
    (TB : back.Tally OkBack FairBack Delivers SettledBack) :
    Whole TF TB (machine H front back).init where
  client := unharmed_init
  outward := ⟨0, 0, TF.init, .zero, rfl⟩
  homeward := by
    refine ⟨0, 0, TB.init, rfl, ?_, ?_⟩
    · intro r error msg h
      simp [machine, Client.completion, Client.future, ResponseFutureData.completion] at h
    · intro data hdata
      simp at hdata

variable {TF : front.Tally OkFront FairFront Answers SettledFront}
  {TB : back.Tally OkBack FairBack Delivers SettledBack}
  {LF : front.Ledger OkFront Relay.AnyMove Serves fun _ => False}
  {LB : back.Ledger OkBack Relay.AnyMove Delivers ReadError} {n : Nat} {s t : Remote H I σ τ}

/-! ## A step of the client -/

/-- **A step of the client whose write does not fail.** -/
theorem Unharmed.effect {c d : Client H} {sent new : List MessageData} (h : Unharmed sent c)
    (hasked : ∀ r q, c.asked r = some q → ∃ call : PackableCall, q = (call.method, call.params))
    (hevolves : Client.Evolves c d) {e : Client.UserEvent H} (hsucceeds : e.Succeeds)
    (he : Client.Effect e c d new) : Unharmed (sent ++ new) d := by
  have hsent : ∀ r id, c.idOf r = some id → ∃ call : PackableCall,
      d.asked r = some (call.method, call.params) ∧
        packRequest id call.method call.params ∈ sent ++ new := by
    intro r id hid
    obtain ⟨call, hcall, hmem⟩ := h.sent r id hid
    exact ⟨call, hevolves.asked r _ hcall, List.mem_append_left _ hmem⟩
  cases he with
  | rests same | notifies same _ _ =>
    refine ⟨?_, ?_, ?_⟩
    · intro r id hid
      rw [same.requests]
      exact h.entry r id (same.idOf ▸ hid)
    · intro r id hid
      exact hsent r id (same.idOf ▸ hid)
    · intro r error msg hv
      exact h.succeeded r error msg (same.completion ▸ hv)
  | fails hfails => exact absurd hsucceeds hfails
  | @registers r' id' method params hreg =>
    refine ⟨?_, ?_, ?_⟩
    · intro r id hid
      rw [hreg.requests]
      by_cases hr : r = r'
      · subst hr
        rw [hreg.idOf_self] at hid
        cases hid
        exact AList.lookup_insert _
      · rw [hreg.idOf_ne r hr] at hid
        have hentry := h.entry r id hid
        have hne : id ≠ id' := by
          rintro rfl
          exact hreg.unused (AList.lookup_isSome.mp (by rw [hentry]; rfl))
        rw [AList.lookup_insert_ne hne]
        exact hentry
    · intro r id hid
      by_cases hr : r = r'
      · subst hr
        rw [hreg.idOf_self] at hid
        cases hid
        obtain ⟨call, hcall⟩ := hasked r _ hreg.asked
        cases hcall
        exact ⟨call, hevolves.asked r _ hreg.asked, List.mem_append_right _ List.mem_cons_self⟩
      · exact hsent r id (hreg.idOf_ne r hr ▸ hid)
    · intro r error msg hv
      exact h.succeeded r error msg (hreg.completion ▸ hv)

/-- **An event of the user, of a thread in `async_request` or of a write.** -/
theorem Whole.user_step {e : Client.UserEvent H} (h : Whole TF TB s) (hinv : Inv LF LB n s)
    (hc : Conforms OkFront Serves OkBack) (he : e.Succeeds)
    (hs : step front back s (.user e) = some t) : Whole TF TB t := by
  obtain ⟨client, hstep, hs⟩ := Option.bind_eq_some_iff.mp hs
  obtain ⟨u, hu, rfl⟩ := Option.map_eq_some_iff.mp hs
  have hevolves := (hinv.client.client.step hstep).2
  have heffect := (Client.effect_user hinv.client.client hstep).1
  have hnew := hinv.client.written hevolves heffect
  obtain ⟨held, origins, hheld, hrel, hsent⟩ := h.outward
  obtain ⟨held', heard, hheld', hresponses, hcompleted, hcompletes⟩ := h.homeward
  refine ⟨h.client.effect hinv.client.asked hevolves he heffect, ?_, ?_⟩
  · refine ⟨held + _, origins, TF.putAll hheld (fun x hx => ok_of_written hc (hnew x hx)) ?_ hu,
      hrel, ?_⟩
    · exact hinv.ok_of_le hc (hsent ▸ Multiset.le_add_right held origins)
    · rw [add_right_comm, ← hsent, Multiset.coe_add]
  · exact ⟨held', heard, hheld', hresponses, hcompleted.effect hevolves heffect,
      hcompletes.mono hevolves⟩

/-! ## A move of a relay -/

/-- **A move on the way to the server, or of the server.** -/
theorem Whole.front_step (h : Whole TF TB s) (hinv : Inv LF LB n s)
    (hc : Conforms OkFront Serves OkBack) (hanswers : ∀ data answer, Answers data answer →
      Serves data answer) {i : ι} (hi : FairFront s.front i)
    (hs : step front back s (.front i) = some t) : Whole TF TB t := by
  obtain ⟨held, origins, hheld, hrel, hsent⟩ := h.outward
  obtain ⟨held', heard, hheld', hresponses, hcompleted⟩ := h.homeward
  have hok := hinv.ok_of_le hc (hsent ▸ Multiset.le_add_right held origins)
  simp only [step] at hs
  split at hs
  · cases hs
  · rename_i u hu
    cases hs
    exact ⟨h.client, ⟨held, origins, TF.silent hheld hok hi hu, hrel, hsent⟩, h.homeward⟩
  · rename_i u answer hu
    obtain ⟨v, hv, rfl⟩ := Option.map_eq_some_iff.mp hs
    obtain ⟨data, rest, rfl, hanswer, hrest⟩ := TF.stems hheld hok hi hu
    have hall : Multiset.Rel Answers (data ::ₘ origins)
        ((s.served ++ [answer] : List (Answer I)) : Multiset (Answer I)) := by
      rw [← Multiset.coe_add, Multiset.coe_singleton, Multiset.add_comm, Multiset.singleton_add]
      exact .cons hanswer hrel
    refine ⟨h.client, ⟨rest, data ::ₘ origins, hrest, hall, ?_⟩, ?_⟩
    · rw [Multiset.add_cons, ← Multiset.cons_add]
      exact hsent
    · have hresponse : ∀ x ∈ answer.response.toList, OkBack x := by
        intro x hx
        exact (hc.response data answer x (hanswers data answer hanswer) (Option.mem_toList.mp hx)).1
      have hserved := hrel.mono fun data _ answer _ h => hanswers data answer h
      have hback := ok_of_response hc hserved (hresponses ▸ Multiset.le_add_right held' heard)
      refine ⟨held' + _, heard, TB.putAll hheld' hresponse hback hv, ?_, hcompleted⟩
      rw [List.filterMap_append, ← Multiset.coe_add, add_right_comm, hresponses]
      cases hanswer : answer.response <;> simp [hanswer]

/-- The request that a response is for has kept its entry. -/
theorem Whole.entry_of_response (h : Whole TF TB s) (hinv : Inv LF LB n s)
    (hc : Conforms OkFront Serves OkBack) (hanswers : ∀ data answer, Answers data answer →
      Serves data answer) {data : MessageData} (hdata : data ∈ s.served.filterMap Answer.response) :
    ∃ msg r, Client.IsResponse data msg ∧ s.client.idOf r = some msg.msgid ∧
      s.client.requests.lookup msg.msgid = some r := by
  obtain ⟨held, origins, -, hrel, hsent⟩ := h.outward
  obtain ⟨q, hq, answer, -, hanswer, hresponse⟩ := exists_served hrel hdata
  obtain ⟨-, qmsg, msg, hqmsg, htype, hmsg, hsame⟩ :=
    hc.response q answer data (hanswers q answer hanswer) hresponse
  have hqid := requestId_of_ofData hqmsg htype
  have hmem : q ∈ s.sent := by
    rw [← Multiset.mem_coe, hsent]
    exact Multiset.mem_add.mpr (.inr hq)
  rcases hinv.written q hmem with ⟨r, id, call, hid, -, rfl⟩ | ⟨call, rfl⟩
  · rw [requestId_packRequest, ← hsame] at hqid
    cases hqid
    exact ⟨msg, r, hmsg, hid, h.client.entry r _ hid⟩
  · rw [requestId_packNotification] at hqid
    cases hqid

/-- **A move on the way to the client**: a response that arrives completes its request. -/
theorem Whole.back_step (h : Whole TF TB s) (hinv : Inv LF LB n s)
    (hc : Conforms OkFront Serves OkBack) (hanswers : ∀ data answer, Answers data answer →
      Serves data answer) {i : κ} {order : List Msgid} (hi : FairBack s.back i)
    (hs : step front back s (.back i order) = some t) : Whole TF TB t := by
  obtain ⟨-, origins, -, hrel, -⟩ := h.outward
  obtain ⟨held, heard, hheld, hresponses, hcompleted, hcompletes⟩ := h.homeward
  have hserved := hrel.mono fun data _ answer _ h => hanswers data answer h
  have hok := ok_of_response hc hserved (hresponses ▸ Multiset.le_add_right held heard)
  simp only [step] at hs
  split at hs
  · cases hs
  · rename_i u hu
    cases hs
    exact ⟨h.client, h.outward, held, heard, TB.silent hheld hok hi hu, hresponses, hcompleted,
      hcompletes⟩
  · rename_i u call hu
    obtain ⟨client, he, rfl⟩ := Option.map_eq_some_iff.mp hs
    obtain ⟨data, rest, rfl, rfl, hrest⟩ := TB.stems hheld hok hi hu
    have hmem : data ∈ s.served.filterMap Answer.response := by
      rw [← Multiset.mem_coe, hresponses]
      simp
    obtain ⟨msg, r, hmsg, hid, hentry⟩ := h.entry_of_response hinv hc hanswers hmem
    have hreads : 0 < s.client.reads := by
      by_contra hzero
      simp [onReadCall, Client.step, hzero] at he
    have hpending := hinv.pending_of_response hc hreads (le_of_eq hresponses.symm) hcompleted hmsg
    obtain ⟨hrequests, hidOf, hasked, -, hnew, hold⟩ :=
      Client.read_response hinv.client.client hmsg hpending he
    have hevolves := (hinv.client.client.step he).2
    refine ⟨⟨?_, ?_, ?_⟩, h.outward, rest, data ::ₘ heard, hrest, ?_, ?_, ?_⟩
    · intro r id hid
      rw [hrequests]
      exact h.client.entry r id (hidOf ▸ hid)
    · intro r id hid
      rw [hasked r]
      exact h.client.sent r id (hidOf ▸ hid)
    · intro r error msg' hv
      by_cases hr : s.client.requests.lookup msg.msgid = some r
      · rw [hnew r hr] at hv
        cases hv
        rfl
      · exact h.client.succeeded r error msg' (hold r hr ▸ hv)
    · rw [Multiset.add_cons, ← Multiset.cons_add]
      exact hresponses
    · exact hcompleted.response hinv.client.client hmsg hidOf hnew hold
    · intro data' hdata'
      rcases Multiset.mem_cons.mp hdata' with rfl | hdata'
      · exact ⟨r, msg, hmsg, hidOf ▸ hid, hnew r hentry⟩
      · exact hcompletes.mono hevolves data' hdata'

theorem Whole.step (h : Whole TF TB s) (hinv : Inv LF LB n s)
    (hc : Conforms OkFront Serves OkBack) (hanswers : ∀ data answer, Answers data answer →
      Serves data answer) {e : Event ι κ H} (he : s.Undisturbed FairFront FairBack e)
    (hs : (machine H front back).step s e = some t) : Whole TF TB t := by
  cases e with
  | user e => exact h.user_step hinv hc he hs
  | front i => exact h.front_step hinv hc hanswers he hs
  | back i order => exact h.back_step hinv hc hanswers he hs

/-! ## Whole runs -/

/-- **Everything is accounted for** as long as nothing fails. -/
theorem whole_run (hc : Conforms OkFront Serves OkBack) (hanswers : ∀ data answer,
      Answers data answer → Serves data answer) {es : List (Event ι κ H)}
    (hn : n + draws es ≤ 2 ^ 32)
    (hfair : (machine H front back).EachStep (Undisturbed FairFront FairBack) s es)
    (h : Whole TF TB s) (hinv : Inv LF LB n s)
    (hs : (machine H front back).run s es = some t) : Whole TF TB t := by
  induction es generalizing n s with
  | nil =>
    cases hs
    exact h
  | cons e es ih =>
    obtain ⟨u, hu, hs⟩ := (Machine.run_cons _).mp hs
    have hsum : draws (e :: es) = e.draws + draws es := by simp [draws]
    rw [hsum, ← Nat.add_assoc] at hn
    exact ih hn (hfair.2 u hu) (h.step hinv hc hanswers hfair.1 hu)
      (hinv.step hc (by omega) hu) hs

/-- What has come of the requests when both relays are settled. -/
structure Complete (Answers : MessageData → Answer I → Prop) (s : Remote H I σ τ) : Prop where
  /-- Every message that was sent has been processed, each as often as it was sent. -/
  served : (s.served.map Answer.message).Perm s.sent
  /-- Every registered request has an answer, and is completed by the response if there is
  one. -/
  completed : ∀ r id, s.client.idOf r = some id → ∃ call : PackableCall, ∃ answer ∈ s.served,
    s.client.asked r = some (call.method, call.params) ∧
    answer.message = packRequest id call.method call.params ∧ Answers answer.message answer ∧
    ∀ response, answer.response = some response →
      ∃ msg, Client.IsResponse response msg ∧ s.client.completion r = some ({}, msg)
  /-- No request has failed. -/
  succeeded : ∀ r error msg, s.client.completion r = some (error, msg) → error.hasError = false

/-- **At the end every request is completed that has a response.** -/
theorem Whole.complete (h : Whole TF TB s) (hinv : Inv LF LB n s)
    (hc : Conforms OkFront Serves OkBack) (hanswers : ∀ data answer, Answers data answer →
      Serves data answer) (hfront : SettledFront s.front) (hback : SettledBack s.back) :
    s.Complete Answers := by
  obtain ⟨held, origins, hheld, hrel, hsent⟩ := h.outward
  obtain ⟨held', heard, hheld', hresponses, -, hcompletes⟩ := h.homeward
  -- nothing is under way any more
  rw [TF.settled hheld hfront, zero_add] at hsent
  rw [TB.settled hheld' hback, zero_add] at hresponses
  refine ⟨?_, ?_, h.client.succeeded⟩
  · have hmap := (Multiset.rel_map_right (f := Answer.message) (r := Eq)).mpr
      (hrel.mono fun data _ answer _ hanswer =>
        (hc.message data answer (hanswers data answer hanswer)).symm)
    rw [Multiset.rel_eq, ← hsent, Multiset.map_coe, Multiset.coe_eq_coe] at hmap
    exact hmap.symm
  · intro r id hid
    obtain ⟨call, hcall, hmem⟩ := h.client.sent r id hid
    rw [← Multiset.mem_coe, hsent] at hmem
    obtain ⟨answer, hin, hanswer⟩ := Multiset.exists_mem_of_rel_of_mem hrel hmem
    have hserves := hanswers _ answer hanswer
    have hmessage := hc.message _ answer hserves
    refine ⟨call, answer, Multiset.mem_coe.mp hin, hcall, hmessage, hmessage ▸ hanswer, ?_⟩
    intro response hresponse
    have hheard : response ∈ heard := by
      rw [← hresponses]
      exact Multiset.mem_coe.mpr (List.mem_filterMap.mpr
        ⟨answer, Multiset.mem_coe.mp hin, hresponse⟩)
    obtain ⟨r', msg, hmsg, hid', hcompletion⟩ := hcompletes response hheard
    -- the response carries the msgid of the request
    obtain ⟨-, qmsg, reply, hqmsg, htype, hreply, hsame⟩ := hc.response _ answer response hserves
      hresponse
    have hmsgs : reply = msg := Except.ok.inj (hreply.1.symm.trans hmsg.1)
    subst hmsgs
    have hqid := requestId_of_ofData hqmsg htype
    rw [requestId_packRequest, ← hsame] at hqid
    cases hqid
    have hr : r' = r := hinv.client.drawn.idOf_injective hid' hid
    subst hr
    exact ⟨reply, hreply, hcompletion⟩

/-- **Requests are completed** at the end of every run in which nothing fails and after which
nothing is under way. -/
theorem complete_of_run (TF : front.Tally OkFront FairFront Answers SettledFront)
    (TB : back.Tally OkBack FairBack Delivers SettledBack)
    (LF : front.Ledger OkFront Relay.AnyMove Serves fun _ => False)
    (LB : back.Ledger OkBack Relay.AnyMove Delivers ReadError) (hc : Conforms OkFront Serves OkBack)
    (hanswers : ∀ data answer, Answers data answer → Serves data answer)
    {es : List (Event ι κ H)} (hn : draws es ≤ 2 ^ 32)
    (hfair : (machine H front back).EachStep (Undisturbed FairFront FairBack)
      (machine H front back).init es)
    (hs : (machine H front back).run (machine H front back).init es = some t)
    (hfront : SettledFront t.front) (hback : SettledBack t.back) : t.Complete Answers := by
  have hinv := inv_run hc (by omega) (inv_init LF LB) hs
  have hwhole := whole_run hc hanswers (n := 0) (by omega) hfair (whole_init TF TB)
    (inv_init LF LB) hs
  exact hwhole.complete hinv hc hanswers hfront hback

end MpRpc.Remote
