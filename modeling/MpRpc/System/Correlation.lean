import MpRpc.System.Steps

/-!
# Correlation — one client and one server: every request gets its own answer

A request passes through the map of the client, the channel to the server, the
pool of the server, the channel back and its future. The invariant follows its
msgid: every message, closure and completion belongs to the request that was
registered under the msgid it carries (`Traced`), and a msgid is under way at
most once and only for a request that is not completed (`Flight`). The second
part is what keeps a response from meeting an entry that is already answered.
-/

namespace MpRpc.System

open Msgpack

variable {H A W : Type*} {server : SimpleMethodServer A W} {s t : System H A}

/-! ## What belongs to a request -/

/-- `call` is what request `r` asked for, and `id` its msgid. -/
structure Requested (s : System H A) (r : Nat) (id : Msgid) (call : ProperCall server) : Prop where
  idOf : s.client.idOf r = some id
  asked : s.client.asked r = some (call.method, call.params)

/-- The server received the message of request `r`, and for that message it has
called the function of the method once, on the parameters of `r`. -/
structure Executed (s : System H A) (r : Nat) (id : Msgid) (call : ProperCall server) (w : W) :
    Prop where
  requested : s.Requested r id call
  invoked : ∃ origin, s.server.received[origin]? = some (0, call.data id) ∧
    s.server.invocationsOf origin = [call.invocation w]

/-- Nothing that was recorded is taken back. -/
structure Extends (s t : System H A) : Prop where
  client : Client.Evolves s.client t.client
  received : s.server.received <+: t.server.received
  invoked : ∀ origin inv, s.server.invocationsOf origin = [inv] →
    t.server.invocationsOf origin = [inv]

theorem Requested.mono {r : Nat} {id : Msgid} {call : ProperCall server}
    (h : s.Requested r id call) (hx : Extends s t) : t.Requested r id call :=
  ⟨hx.client.idOf r id h.idOf, hx.client.asked r _ h.asked⟩

theorem Executed.mono {r : Nat} {id : Msgid} {call : ProperCall server} {w : W}
    (h : s.Executed r id call w) (hx : Extends s t) : t.Executed r id call w := by
  obtain ⟨origin, hreceived, hinvoked⟩ := h.invoked
  obtain ⟨rest, hrest⟩ := hx.received
  refine ⟨h.requested.mono hx, origin, ?_, hx.invoked origin _ hinvoked⟩
  rw [← hrest, List.getElem?_append_left (List.getElem?_eq_some_iff.mp hreceived).1, hreceived]

/-- Every message, and every completion, belongs to a request. -/
structure Traced (server : SimpleMethodServer A W) (s : System H A) : Prop where
  toServer : ∀ data ∈ s.toServer, ∃ r id, ∃ call : ProperCall server,
    s.Requested r id call ∧ data = call.data id
  received : ∀ p ∈ s.server.received, ∃ r id, ∃ call : ProperCall server,
    s.Requested r id call ∧ p = (0, call.data id)
  toClient : ∀ data ∈ s.toClient, ∃ r id, ∃ call : ProperCall server, ∃ w,
    s.Executed r id call w ∧ data = call.replyData id w
  completed : ∀ r v, s.client.completion r = some v → ∃ id, ∃ call : ProperCall server, ∃ w,
    s.Executed r id call w ∧ v = ({}, call.reply id w)

/-- After a step, what was there before still belongs to its request, so only what
the step has added needs a reason. -/
theorem Traced.extend (h : Traced server s) (hx : Extends s t)
    (htoServer : ∀ data ∈ t.toServer, data ∈ s.toServer ∨
      ∃ r id, ∃ call : ProperCall server, t.Requested r id call ∧ data = call.data id)
    (hreceived : ∀ p ∈ t.server.received, p ∈ s.server.received ∨
      ∃ r id, ∃ call : ProperCall server, t.Requested r id call ∧ p = (0, call.data id))
    (htoClient : ∀ data ∈ t.toClient, data ∈ s.toClient ∨
      ∃ r id, ∃ call : ProperCall server, ∃ w,
        t.Executed r id call w ∧ data = call.replyData id w)
    (hcompleted : ∀ r v, t.client.completion r = some v → s.client.completion r = some v ∨
      ∃ id, ∃ call : ProperCall server, ∃ w,
        t.Executed r id call w ∧ v = ({}, call.reply id w)) :
    Traced server t where
  toServer data hdata := by
    rcases htoServer data hdata with hold | hnew
    · obtain ⟨r, id, call, hreq, heq⟩ := h.toServer data hold
      exact ⟨r, id, call, hreq.mono hx, heq⟩
    · exact hnew
  received p hp := by
    rcases hreceived p hp with hold | hnew
    · obtain ⟨r, id, call, hreq, heq⟩ := h.received p hold
      exact ⟨r, id, call, hreq.mono hx, heq⟩
    · exact hnew
  toClient data hdata := by
    rcases htoClient data hdata with hold | hnew
    · obtain ⟨r, id, call, w, hex, heq⟩ := h.toClient data hold
      exact ⟨r, id, call, w, hex.mono hx, heq⟩
    · exact hnew
  completed r v hv := by
    rcases hcompleted r v hv with hold | hnew
    · obtain ⟨id, call, w, hex, heq⟩ := h.completed r v hold
      exact ⟨id, call, w, hex.mono hx, heq⟩
    · exact hnew

/-! ## What is under way -/

/-- The msgids on the two channels and in the pool. -/
def inFlight (s : System H A) : List Msgid :=
  s.toServer.filterMap msgidOf ++
    (s.server.tasks.filterMap Task.msgid ++ s.toClient.filterMap msgidOf)

/-- A msgid is under way once, and its request waits for it. -/
structure Flight (s : System H A) : Prop where
  nodup : s.inFlight.Nodup
  pending : ∀ id ∈ s.inFlight, ∃ r,
    s.client.requests.lookup id = some r ∧ s.client.completion r = none

theorem perm_pass {α : Type*} (xs ys zs : List α) (a : α) :
    (xs ++ (ys ++ a :: zs)).Perm (a :: (xs ++ (ys ++ zs))) := by
  simpa only [List.append_assoc] using @List.perm_middle _ a (xs ++ ys) zs

theorem perm_last {α : Type*} (xs zs : List α) {ys ys' : List α} {a : α}
    (h : (a :: ys').Perm ys) : (xs ++ (ys' ++ (zs ++ [a]))).Perm (xs ++ (ys ++ zs)) := by
  refine List.Perm.append_left xs ?_
  rw [← List.append_assoc]
  exact (List.perm_append_singleton a (ys' ++ zs)).trans (h.append_right zs)

/-- A message moves on, and the client does not change. -/
theorem Flight.move (h : Flight s) (hperm : t.inFlight.Perm s.inFlight)
    (hrequests : t.client.requests = s.client.requests)
    (hcompletion : t.client.completion = s.client.completion) : Flight t := by
  refine ⟨hperm.nodup_iff.mpr h.nodup, ?_⟩
  intro id hid
  obtain ⟨r, hr, hp⟩ := h.pending id (hperm.mem_iff.mp hid)
  exact ⟨r, hrequests ▸ hr, hcompletion ▸ hp⟩

/-- A request that is registered under an unused msgid sets out. -/
theorem Flight.add (h : Flight s) {r : Nat} {id : Msgid}
    (hperm : t.inFlight.Perm (id :: s.inFlight))
    (hunused : id ∉ s.client.requests)
    (hrequests : t.client.requests = s.client.requests.insert id r)
    (hcompletion : t.client.completion = s.client.completion)
    (hr : s.client.completion r = none) : Flight t := by
  have hnew : id ∉ s.inFlight := by
    intro hmem
    obtain ⟨r', hr', -⟩ := h.pending id hmem
    exact hunused (AList.lookup_isSome.mp (by simp [hr']))
  refine ⟨hperm.nodup_iff.mpr (List.nodup_cons.mpr ⟨hnew, h.nodup⟩), ?_⟩
  intro id' hid'
  rw [hrequests, hcompletion]
  rcases List.mem_cons.mp (hperm.mem_iff.mp hid') with heq | hold
  · subst heq
    exact ⟨r, AList.lookup_insert _, hr⟩
  · obtain ⟨r', hr', hp⟩ := h.pending id' hold
    have hne : id' ≠ id := fun heq => hnew (heq ▸ hold)
    exact ⟨r', by rw [AList.lookup_insert_ne hne, hr'], hp⟩

/-- The response of a request arrives, and only that request is completed. -/
theorem Flight.arrive (h : Flight s) (hc : s.client.Inv) {r : Nat} {id : Msgid}
    (hperm : s.inFlight.Perm (id :: t.inFlight))
    (hid : s.client.idOf r = some id)
    (hrequests : t.client.requests = s.client.requests)
    (hcompletion : ∀ r', r' ≠ r → t.client.completion r' = s.client.completion r') :
    Flight t := by
  obtain ⟨hnew, hnodup⟩ := List.nodup_cons.mp (hperm.nodup_iff.mp h.nodup)
  refine ⟨hnodup, ?_⟩
  intro id' hid'
  obtain ⟨r', hr', hp⟩ := h.pending id' (hperm.mem_iff.mpr (List.mem_cons_of_mem id hid'))
  refine ⟨r', hrequests ▸ hr', ?_⟩
  have hne : r' ≠ r := by
    intro heq
    have hentry := hc.entry id' r' hr'
    rw [heq, hid, Option.some.injEq] at hentry
    exact hnew (hentry ▸ hid')
  rw [hcompletion r' hne, hp]

/-! ## The invariant -/

structure Inv (server : SimpleMethodServer A W) (s : System H A) : Prop where
  clientInv : s.client.Inv
  serverInv : s.server.Inv
  /-- No entry is ever erased, because no write fails. -/
  kept : ∀ r id, s.client.idOf r = some id → s.client.requests.lookup id = some r
  proper : ∀ r q, s.client.asked r = some q →
    ∃ call : ProperCall server, q = (call.method, call.params)
  wired : Wired s.server
  traced : Traced server s
  flight : Flight s

theorem inv_init : Inv server (machine server H).init where
  clientInv := Client.inv_init
  serverInv := ⟨by simp [machine], by simp [machine], by simp [machine, Server.Waiting],
    by simp [machine, Server.Waiting], by simp [machine], by simp [machine]⟩
  kept r id hid := by simp [machine, Client.idOf, Client.phase] at hid
  proper r q hq := by simp [machine, Client.asked] at hq
  wired := ⟨rfl, by simp [machine], by simp [machine], by simp [machine]⟩
  traced := ⟨by simp [machine], by simp [machine], by simp [machine], fun r v hv => by cases hv⟩
  flight := ⟨by simp [machine, inFlight], by simp [machine, inFlight]⟩

/-- The client does something by itself that leaves the requests as they are. -/
theorem Inv.rests (h : Inv server s) {client : Client H} (hclient : client.Inv)
    (hevolves : Client.Evolves s.client client)
    (hasked : ∀ r q, client.asked r = some q →
      ∃ call : ProperCall server, q = (call.method, call.params))
    (hrests : Client.Untouched s.client client) : Inv server { s with client } := by
  have hx : Extends s { s with client } := ⟨hevolves, List.prefix_rfl, fun _ _ hinv => hinv⟩
  refine ⟨hclient, h.serverInv, ?_, hasked, h.wired, ?_, ?_⟩
  · intro r id hid
    show client.requests.lookup id = some r
    rw [hrests.requests]
    exact h.kept r id (hrests.idOf ▸ hid)
  · exact h.traced.extend hx (fun _ => .inl) (fun _ => .inl) (fun _ => .inl)
      (fun r v hv => .inl (hrests.completion ▸ hv))
  · exact h.flight.move (List.Perm.refl _) hrests.requests hrests.completion

/-- The client registers a request, and its message sets out. -/
theorem Inv.registers (h : Inv server s) {client : Client H} (hclient : client.Inv)
    (hevolves : Client.Evolves s.client client)
    (hasked : ∀ r q, client.asked r = some q →
      ∃ call : ProperCall server, q = (call.method, call.params))
    {r : Nat} {id : Msgid} {method : Bytes} {params : List Object}
    (hreg : Client.Registers s.client client r id method params) :
    Inv server { s with client, toServer := s.toServer ++ [packRequest id method params] } := by
  obtain ⟨call, hcall⟩ := h.proper r _ hreg.asked
  obtain ⟨rfl, rfl⟩ := Prod.mk.inj hcall
  have hx : ∀ toServer, Extends s { s with client, toServer } := fun _ =>
    ⟨hevolves, List.prefix_rfl, fun _ _ hinv => hinv⟩
  refine ⟨hclient, h.serverInv, ?_, hasked, h.wired, ?_, ?_⟩
  · intro r' id' hid'
    show client.requests.lookup id' = some r'
    rw [hreg.requests]
    -- the new entry, and those that were there before it
    by_cases hr : r' = r
    · subst hr
      have heq : id' = id := Option.some.inj (hid'.symm.trans hreg.idOf_self)
      subst heq
      exact AList.lookup_insert _
    · have hold := h.kept r' id' (hreg.idOf_ne r' hr ▸ hid')
      have hne : id' ≠ id := by
        intro heq
        subst heq
        exact hreg.unused (AList.lookup_isSome.mp (by simp [hold]))
      rw [AList.lookup_insert_ne hne, hold]
  · refine h.traced.extend (hx _) ?_ (fun _ => .inl) (fun _ => .inl)
      (fun r v hv => .inl (hreg.completion ▸ hv))
    intro data hdata
    rcases List.mem_append.mp hdata with hold | hnew
    · exact .inl hold
    · exact .inr ⟨r, id, call,
        ⟨hreg.idOf_self, hevolves.asked r _ hreg.asked⟩, List.mem_singleton.mp hnew⟩
  · refine h.flight.add ?_ hreg.unused hreg.requests hreg.completion
      (h.clientInv.fresh r hreg.unregistered)
    have hid : msgidOf (packRequest id call.method call.params) = some id := msgidOf_data call id
    simp only [inFlight, List.filterMap_append, List.filterMap_cons_some hid,
      List.filterMap_nil, List.append_assoc, List.singleton_append]
    exact List.perm_middle

theorem Inv.user (h : Inv server s) {e : Client.UserEvent H} (hproper : Proper server e)
    {client : Client H} (he : s.client.step e.toClient = some client) :
    Inv server { s with client, toServer := s.toServer ++ s.client.sent client } := by
  obtain ⟨hclient, hevolves⟩ := h.clientInv.step he
  obtain ⟨heffect, hasks, -⟩ := Client.effect_user h.clientInv he
  have hasked : ∀ r q, client.asked r = some q →
      ∃ call : ProperCall server, q = (call.method, call.params) := by
    intro r q hq
    rcases hasks r q hq with hold | ⟨call, rfl, rfl⟩
    · exact h.proper r q hold
    · obtain ⟨proper, rfl⟩ := hproper
      exact ⟨proper, rfl⟩
  generalize s.client.sent client = sent at heffect ⊢
  cases heffect with
  | rests same =>
    rw [List.append_nil]
    exact h.rests hclient hevolves hasked same
  | notifies _ call he =>
    rw [he] at hproper
    exact hproper.elim
  | registers hreg => exact h.registers hclient hevolves hasked hreg
  | fails hfails =>
    refine absurd ?_ hfails
    cases e with
    | writeDone i error => exact hproper
    | _ => trivial

/-- The next message reaches the server. -/
theorem Inv.serverRead (h : Inv server s) {data : MessageData} {toServer : List MessageData}
    (hs : s.toServer = data :: toServer) {u : Server A}
    (he : s.server.step server (.readDone 0 {} data) = some u) :
    Inv server { s with toServer, server := u } := by
  obtain ⟨r, id, call, hreq, hdata⟩ := h.traced.toServer data (by simp [hs])
  have hmsg := call.ofData_data id
  rw [← hdata] at hmsg
  obtain ⟨hwired, hreceived, htasks, hinvocations⟩ := serverRead_spec h.wired hmsg he
  have hx : Extends s { s with toServer, server := u } := by
    refine ⟨.of_calls rfl, ?_, ?_⟩
    · exact hreceived ▸ List.prefix_append _ _
    · intro origin inv hinv
      show u.invocationsOf origin = [inv]
      rw [Server.invocationsOf, hinvocations]
      exact hinv
  refine ⟨h.clientInv, h.serverInv.step he, h.kept, h.proper, hwired, ?_, ?_⟩
  · refine h.traced.extend hx ?_ ?_ (fun _ => .inl) (fun _ _ => .inl)
    · intro d hd
      exact .inl (hs ▸ List.mem_cons_of_mem _ hd)
    · intro p hp
      rw [show _ = _ from hreceived] at hp
      rcases List.mem_append.mp hp with hold | hnew
      · exact .inl hold
      · refine .inr ⟨r, id, call, hreq.mono hx, ?_⟩
        rw [List.mem_singleton.mp hnew, hdata]
  · refine h.flight.move ?_ rfl rfl
    have hid : msgidOf data = some id := hdata ▸ msgidOf_data call id
    simp only [inFlight, hs, htasks, List.filterMap_append, List.filterMap_cons_some hid,
      List.filterMap_cons, Task.msgid, Message.request, List.filterMap_nil, List.append_assoc,
      List.cons_append, List.nil_append]
    exact perm_pass _ _ _ id

/-- A worker runs a closure of the server. -/
theorem Inv.runTask (h : Inv server s) {i : Nat} {w : W} {u : Server A}
    (he : s.server.step server (.runTask i w) = some u) :
    Inv server { s with server := u, toClient := s.toClient ++ sentByServer s.server u } := by
  cases htask : s.server.tasks[i]? with
  | none => simp [Server.step, htask] at he
  | some task =>
    have hmem := List.mem_of_getElem? htask
    obtain ⟨origin, msg, rfl⟩ := h.wired.tasks task hmem
    -- the closure carries the message of a request
    obtain ⟨data, hget, hmsg⟩ := h.serverInv.task origin 0 msg hmem
    obtain ⟨r, id, call, hreq, hdata⟩ := h.traced.received _ (List.mem_of_getElem? hget)
    rw [hdata] at hget
    rw [(Prod.mk.inj hdata).2, call.ofData_data, Except.ok.injEq] at hmsg
    subst hmsg
    obtain ⟨hwired, hreceived, htasks, hinvoked, hsent⟩ := runTask_spec h.wired call htask he
    have hwaiting : s.server.Waiting origin := List.mem_filterMap.mpr ⟨_, hmem, rfl⟩
    have hbefore := h.serverInv.waitingInvocations origin hwaiting
    rw [hsent]
    -- a message that has had its call is not the one whose closure runs now
    have hx : Extends s
        { s with server := u, toClient := s.toClient ++ [call.replyData id w] } := by
      refine ⟨.of_calls rfl, hreceived ▸ List.prefix_rfl, ?_⟩
      intro origin' inv hinv
      have hne : origin ≠ origin' := by
        intro heq
        rw [← heq, hbefore] at hinv
        cases hinv
      show u.invocationsOf origin' = [inv]
      rw [hinvoked, if_neg hne, List.append_nil, hinv]
    refine ⟨h.clientInv, h.serverInv.step he, h.kept, h.proper, hwired, ?_, ?_⟩
    · refine h.traced.extend hx (fun _ => .inl) ?_ ?_ (fun _ _ => .inl)
      · intro p hp
        exact .inl (hreceived ▸ hp)
      · intro d hd
        rcases List.mem_append.mp hd with hold | hnew
        · exact .inl hold
        · refine .inr ⟨r, id, call, w, ⟨hreq.mono hx, origin, ?_, ?_⟩, List.mem_singleton.mp hnew⟩
          · exact hreceived ▸ hget
          · show u.invocationsOf origin = _
            rw [hinvoked, hbefore, if_pos rfl, List.nil_append]
    · refine h.flight.move ?_ rfl rfl
      have hperm := (perm_cons_eraseIdx htask).filterMap Task.msgid
      simp only [inFlight, htasks, List.filterMap_append, List.filterMap_cons,
        msgidOf_replyData, List.filterMap_nil]
      -- the msgid goes from the pool to the end of the channel
      exact perm_last _ _ hperm

/-- The next message reaches the client. -/
theorem Inv.clientRead (h : Inv server s) {data : MessageData} {toClient : List MessageData}
    (hs : s.toClient = data :: toClient) {order : List Msgid} {client : Client H}
    (he : s.client.step (.readDone {} data order) = some client) :
    Inv server { s with client, toClient } := by
  obtain ⟨r, id, call, w, hex, hdata⟩ := h.traced.toClient data (by simp [hs])
  have hid : msgidOf data = some id := hdata ▸ msgidOf_replyData call id w
  have hflight : s.inFlight.Perm (id :: inFlight { s with client, toClient }) := by
    simp only [inFlight, hs, List.filterMap_cons_some hid]
    exact perm_pass _ _ _ id
  -- the entry under the msgid is of request `r`, and it is pending
  have hr := h.kept r id hex.requested.idOf
  obtain ⟨r', hr', hp⟩ := h.flight.pending id (hflight.mem_iff.mpr List.mem_cons_self)
  obtain rfl : r = r' := Option.some.inj (hr.symm.trans hr')
  have hresponse : Client.IsResponse data (call.reply id w) :=
    ⟨hdata ▸ call.ofData_replyData id w, rfl⟩
  have hpending : ∀ r', s.client.requests.lookup id = some r' → s.client.completion r' = none := by
    intro r' hr'
    rw [← Option.some.inj (hr.symm.trans hr')]
    exact hp
  obtain ⟨hrequests, hidOf, hasked, -, hdone, hsame⟩ :=
    Client.read_response h.clientInv hresponse hpending he
  have hothers : ∀ r', r' ≠ r → client.completion r' = s.client.completion r' := by
    intro r' hne
    refine hsame r' fun hr' => hne ?_
    exact Option.some.inj (hr'.symm.trans hr)
  obtain ⟨hclient, hevolves⟩ := h.clientInv.step he
  have hx : Extends s { s with client, toClient } :=
    ⟨hevolves, List.prefix_rfl, fun _ _ hinv => hinv⟩
  refine ⟨hclient, h.serverInv, ?_, ?_, h.wired, ?_, ?_⟩
  · intro r' id' hid'
    show client.requests.lookup id' = some r'
    rw [hrequests]
    exact h.kept r' id' (hidOf ▸ hid')
  · intro r' q hq
    exact h.proper r' q (hasked r' ▸ hq)
  · refine h.traced.extend hx (fun _ => .inl) (fun _ => .inl) ?_ ?_
    · intro d hd
      exact .inl (hs ▸ List.mem_cons_of_mem _ hd)
    · intro r' v hv
      by_cases hne : r' = r
      · subst hne
        refine .inr ⟨id, call, w, hex.mono hx, ?_⟩
        exact Option.some.inj (hv.symm.trans (hdone r' hr))
      · exact .inl (hothers r' hne ▸ hv)
  · exact h.flight.arrive h.clientInv hflight hex.requested.idOf hrequests hothers

/-- **Every step keeps the invariant.** -/
theorem Inv.step {e : Event server H} (h : Inv server s) (he : step server s e = some t) :
    Inv server t := by
  cases e with
  | start =>
    simp only [System.step] at he
    obtain ⟨client, hclient, rfl⟩ := Option.map_eq_some_iff.mp he
    obtain ⟨hinv, hevolves⟩ := h.clientInv.step hclient
    cases hclient
    exact h.rests hinv hevolves h.proper ⟨rfl, rfl, rfl⟩
  | user e proper =>
    obtain ⟨client, hclient, rfl⟩ := Option.map_eq_some_iff.mp he
    exact h.user proper hclient
  | serverRead =>
    simp only [System.step] at he
    split at he
    · cases he
    · rename_i data toServer hs
      obtain ⟨u, hu, rfl⟩ := Option.map_eq_some_iff.mp he
      exact h.serverRead hs hu
  | runTask i w =>
    obtain ⟨u, hu, rfl⟩ := Option.map_eq_some_iff.mp he
    exact h.runTask hu
  | clientRead order =>
    simp only [System.step] at he
    split at he
    · cases he
    · rename_i data toClient hs
      obtain ⟨client, hclient, rfl⟩ := Option.map_eq_some_iff.mp he
      exact h.clientRead hs hclient

theorem inv_of_reachable (h : (machine server H).Reachable s) : Inv server s :=
  h.invariant inv_init fun _ _ _ hs he => hs.step he

/-! ## What the user sees -/

section

variable {R : Type*} (as : Object → Option R) (call : ProperCall server) (id : Msgid) (w : W)

/-- The value that the function returned is handed to `on_success`. -/
theorem onCompletion_returned {result : { o : Object // o.Packable }} {value : R}
    (hf : call.executor.function w call.args = .returned result)
    (hvalue : as result.1 = some value) :
    TypedResponseFuture.onCompletion as (fun _ => none) {} (call.reply id w) =
      [.onSuccess value] := by
  have hanswer : MethodExecutor.answer (some (call.invocation w)) = (.nil, result.1) := by
    simp [MethodExecutor.answer, ProperCall.invocation, hf]
  simp [ProperCall.reply, hanswer, TypedResponseFuture.onCompletion, thenHandler,
    TypedResponseFuture.onMessage, Message.hasError, Message.response, Message.resultAs, hvalue,
    TypedResponseFuture.attempt, Object.nil]

/-- What the function threw is reported to `on_failure`. -/
theorem onCompletion_threw {what : { text : Bytes // text.length < 2 ^ 32 }}
    (hf : call.executor.function w call.args = .threw what) :
    TypedResponseFuture.onCompletion as (fun _ => none) {} (call.reply id w) =
      [.onFailure (.of .unexpectedError "error on server" (some (pack (.str what.1))))] := by
  have hanswer : MethodExecutor.answer (some (call.invocation w)) = (.str what.1, .nil) := by
    simp [MethodExecutor.answer, ProperCall.invocation, hf]
  simp [ProperCall.reply, hanswer, TypedResponseFuture.onCompletion, thenHandler,
    TypedResponseFuture.onMessage, Message.hasError, Message.response,
    TypedResponseFuture.attempt, TypedResponseFuture.errorOnServer]

end

/-- **Every request is completed by its own method on its own parameters.** If the
future of request `r` is completed, it is with the response to the message of
`r`, for which the server has called the method of `r` once on the parameters of
`r`; the msgid is of no other request. The future succeeds with the value that
this call returned, or it fails because the call threw. -/
theorem completed_by_own_method {R : Type*} (as : Object → Option R)
    (hs : (machine server H).Reachable s) {r : Nat} {error : ErrorInfo} {msg : Message}
    (hc : s.client.completion r = some (error, msg)) :
    ∃ id, ∃ call : ProperCall server, ∃ w,
      s.Executed r id call w ∧ (∀ r', s.client.idOf r' = some id → r' = r) ∧
      msg.type = some .response ∧ msg.msgid = id ∧
      (∀ result value, call.executor.function w call.args = .returned result →
        as result.1 = some value →
          TypedResponseFuture.onCompletion as (fun _ => none) error msg = [.onSuccess value]) ∧
      (∀ what, call.executor.function w call.args = .threw what →
        TypedResponseFuture.onCompletion as (fun _ => none) error msg =
          [.onFailure (.of .unexpectedError "error on server" (some (pack (.str what.1))))]) := by
  have h := inv_of_reachable hs
  obtain ⟨id, call, w, hex, hv⟩ := h.traced.completed r _ hc
  obtain ⟨rfl, rfl⟩ := Prod.mk.inj hv
  refine ⟨id, call, w, hex, ?_, rfl, rfl, ?_, ?_⟩
  · intro r' hr'
    have hlookup := h.kept r' id hr'
    rw [h.kept r id hex.requested.idOf, Option.some.injEq] at hlookup
    exact hlookup.symm
  · intro result value hf hvalue
    exact onCompletion_returned as call id w hf hvalue
  · intro what hf
    exact onCompletion_threw as call id w hf

/-- A method of one boolean parameter, which throws if it is true. -/
def refuse : MethodExecutor Bool Unit where
  name := ascii "refuse"
  params := [⟨fun | .scalar (.boolean b) => some b | _ => none, false⟩]
  function _ args :=
    if args.headD false then .threw ⟨ascii "refused", by decide⟩
    else .returned ⟨.nil, Object.packable_nil⟩

def refuseServer : SimpleMethodServer Bool Unit := .ofMethods [refuse]

def refuseCall (b : Bool) : ProperCall refuseServer where
  method := ascii "refuse"
  params := [.scalar (.boolean b)]
  executor := refuse
  args := [b]
  registered := rfl
  arity := rfl
  converts := rfl
  methodSized := by decide
  paramsPackable := by cases b <;> decide

/-- Two requests, whose closures run in the other order. -/
def crossed : List (Event refuseServer Unit) :=
  [.start, .user (.asyncRequest (refuseCall true).toPackableCall) ⟨_, rfl⟩,
    .user (.asyncRequest (refuseCall false).toPackableCall) ⟨_, rfl⟩, .user (.register 1) trivial,
    .user (.register 0) trivial, .serverRead, .serverRead, .runTask 1 (), .runTask 0 (),
    .clientRead [0, 1], .clientRead [0, 1]]

theorem completed_by_own_method_crossed :
    ∃ s, (machine refuseServer Unit).run (machine refuseServer Unit).init crossed = some s ∧
      (∃ error msg, s.client.completion 0 = some (error, msg) ∧
        ∃ id, ∃ call : ProperCall refuseServer, ∃ w, s.Executed 0 id call w ∧ msg.msgid = id) := by
  have hrun : ∃ s, (machine refuseServer Unit).run (machine refuseServer Unit).init crossed =
      some s ∧ ∃ v, s.client.completion 0 = some v := ⟨_, rfl, _, rfl⟩
  obtain ⟨s, hs, ⟨error, msg⟩, hc⟩ := hrun
  obtain ⟨id, call, w, hex, -, -, hid, -⟩ :=
    completed_by_own_method (fun o => some o) ⟨crossed, hs⟩ hc
  exact ⟨s, hs, error, msg, hc, id, call, w, hex, hid⟩

end MpRpc.System
