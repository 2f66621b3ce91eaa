import Mathlib
import MpRpc.Client.Invariant

/-!
# FreshIds — the loop of `async_request` finds a free message ID

The candidates of one call are consecutive values of a 32-bit counter, so a call that
nobody else disturbs tries a value that it has tried before only after 2^32 rounds. Each
candidate that is in use was a key of `requests_` when the call began, because only calls
add keys. So there are no more collisions than keys. The other events of the client may
happen between two rounds; with other callers, what holds is said of each round.
-/

namespace MpRpc.Client

variable {H : Type*} {s t : Client H} {r : Nat}

/-! ## Consecutive candidates -/

theorem add_ofNat_succ (c : Msgid) (k : Nat) :
    c + UInt32.ofNat k + 1 = c + UInt32.ofNat (k + 1) := by
  rw [UInt32.ofNat_add, UInt32.add_assoc]
  rfl

theorem nodup_candidates (c : Msgid) {n : Nat} (hn : n ≤ 2 ^ 32) :
    ((List.range n).map fun k => c + UInt32.ofNat k).Nodup := by
  apply List.Nodup.map_on _ List.nodup_range
  intro i hi j hj heq
  have hi := List.mem_range.mp hi
  have hj := List.mem_range.mp hj
  have hofNat : UInt32.ofNat i = UInt32.ofNat j := (UInt32.add_right_inj c).mp heq
  have hmod := congrArg UInt32.toNat hofNat
  rwa [UInt32.toNat_ofNat', UInt32.toNat_ofNat', Nat.mod_eq_of_lt (by omega),
    Nat.mod_eq_of_lt (by omega)] at hmod

/-- **The pigeonhole**: of consecutive candidates, no more are keys than there are keys. -/
theorem le_length_of_candidates {keys : List Msgid} (hfew : keys.length < 2 ^ 32) (c : Msgid)
    {k : Nat} (hused : ∀ j < k, c + UInt32.ofNat j ∈ keys) : k ≤ keys.length := by
  by_contra hlt
  have hnodup := nodup_candidates c (show keys.length + 1 ≤ 2 ^ 32 by omega)
  have hsub : ((List.range (keys.length + 1)).map fun k => c + UInt32.ofNat k) ⊆ keys := by
    intro m hm
    obtain ⟨j, hj, rfl⟩ := List.mem_map.mp hm
    have hj := List.mem_range.mp hj
    exact hused j (by omega)
  have hle := (hnodup.subperm hsub).length_le
  rw [List.length_map, List.length_range] at hle
  omega

theorem exists_free_candidate {keys : List Msgid} (hfew : keys.length < 2 ^ 32) (c : Msgid) :
    ∃ k ≤ keys.length, c + UInt32.ofNat k ∉ keys ∧ ∀ j < k, c + UInt32.ofNat j ∈ keys := by
  have hex : ∃ k, c + UInt32.ofNat k ∉ keys := by
    by_contra hall
    push Not at hall
    have hle := le_length_of_candidates hfew c (k := keys.length + 1) fun j _ => hall j
    omega
  have hused : ∀ j < Nat.find hex, c + UInt32.ofNat j ∈ keys := by
    intro j hj
    exact not_not.mp (Nat.find_min hex hj)
  exact ⟨Nat.find hex, le_length_of_candidates hfew c hused, Nat.find_spec hex, hused⟩

/-! ## One round of the loop -/

theorem step_register_of_mem {c : Msgid} (hphase : s.phase r = some (.fetched c))
    (hmem : c ∈ s.requests) : s.step (.register r) = some (s.setPhase r .collided) := by
  obtain ⟨call, hcall, hfetched⟩ := exists_call hphase
  simp only [step, hcall, hfetched, emplace, if_pos hmem]

theorem step_register_of_notMem {c : Msgid} (hphase : s.phase r = some (.fetched c))
    {method : Bytes} {params : List Msgpack.Object} (hasked : s.asked r = some (method, params))
    (hfree : c ∉ s.requests) :
    s.step (.register r) = some (s.enroll r c (packRequest c method params)) := by
  obtain ⟨call, hcall, hfetched⟩ := exists_call hphase
  have hcontent : call.method = method ∧ call.params = params := by
    simpa [asked, hcall] using hasked
  simp only [step, hcall, hfetched, emplace, if_neg hfree, hcontent.1, hcontent.2]

theorem step_fetch_of_collided (hphase : s.phase r = some .collided) :
    s.step (.fetch r) =
      some { s.setPhase r (.fetched s.nextMsgid) with nextMsgid := s.nextMsgid + 1 } := by
  simp only [step, hphase]

/-- The rest of a call that nobody disturbs: `k` rounds collide, and the next one does
not. -/
def loop (r : Nat) : Nat → List (Event H)
  | 0 => [.register r]
  | k + 1 => .register r :: .fetch r :: loop r k

/-- **The loop alone**: it stops at the first candidate that is not a key, under which the
call is registered and its message is written. -/
theorem run_loop {c : Msgid} {k : Nat} (hphase : s.phase r = some (.fetched c))
    (hnext : s.nextMsgid = c + 1) {method : Bytes} {params : List Msgpack.Object}
    (hasked : s.asked r = some (method, params))
    (hused : ∀ j < k, c + UInt32.ofNat j ∈ s.requests)
    (hfree : c + UInt32.ofNat k ∉ s.requests) :
    ∃ t, (machine H).run s (loop r k) = some t ∧ t.idOf r = some (c + UInt32.ofNat k) ∧
      t.requests = s.requests.insert (c + UInt32.ofNat k) r ∧
      t.writes = s.writes ++ [⟨some (c + UInt32.ofNat k),
        packRequest (c + UInt32.ofNat k) method params⟩] := by
  induction k generalizing s c with
  | zero =>
    have hc : c + UInt32.ofNat 0 = c := UInt32.add_zero c
    rw [hc] at hfree ⊢
    refine ⟨_, (Machine.run_cons _).mpr ⟨_, step_register_of_notMem hphase hasked hfree, rfl⟩,
      idOf_enroll_self (by exact hphase) _, rfl, rfl⟩
  | succ k ih =>
    have hmem : c ∈ s.requests := by
      have h0 := hused 0 (Nat.succ_pos k)
      rwa [show c + UInt32.ofNat 0 = c from UInt32.add_zero c] at h0
    have hshift : ∀ j, c + 1 + UInt32.ofNat j = c + UInt32.ofNat (j + 1) := by
      intro j
      rw [← add_ofNat_succ, UInt32.add_assoc, UInt32.add_comm 1, ← UInt32.add_assoc]
    -- the state in which the next round begins
    let u : Client H := { (s.setPhase r .collided).setPhase r (.fetched (c + 1)) with
      nextMsgid := c + 1 + 1 }
    have hcollided : (s.setPhase r .collided).phase r = some .collided :=
      phase_setPhase_self .collided hphase
    have hu : (s.setPhase r .collided).step (.fetch r) = some u := by
      rw [step_fetch_of_collided hcollided]
      show some { (s.setPhase r .collided).setPhase r (.fetched s.nextMsgid) with
        nextMsgid := s.nextMsgid + 1 } = some u
      rw [hnext]
    have huphase : u.phase r = some (.fetched (c + 1)) :=
      phase_setPhase_self (.fetched (c + 1)) hcollided
    have huasked : u.asked r = some (method, params) := by
      show ((s.setPhase r .collided).setPhase r (.fetched (c + 1))).asked r = _
      rw [asked_setPhase, asked_setPhase, hasked]
    obtain ⟨t, hrun, hid, hrequests, hwrites⟩ := ih huphase rfl huasked
      (fun j hj => by rw [hshift]; exact hused (j + 1) (by omega)) (by rw [hshift]; exact hfree)
    rw [hshift] at hid hrequests hwrites
    refine ⟨t, ?_, hid, hrequests, hwrites⟩
    exact (Machine.run_cons _).mpr ⟨_, step_register_of_mem hphase hmem,
      (Machine.run_cons _).mpr ⟨u, hu, hrun⟩⟩

/-! ## What the other events leave alone -/

/-- The counter and the calls are where they were, and no key was added. -/
structure Undisturbed (s t : Client H) : Prop where
  next : t.nextMsgid = s.nextMsgid
  phase : ∀ r, t.phase r = s.phase r
  keys : ∀ m, m ∈ t.requests → m ∈ s.requests

namespace Undisturbed

theorem refl (s : Client H) : Undisturbed s s := ⟨rfl, fun _ => rfl, fun _ h => h⟩

theorem trans {u : Client H} (h : Undisturbed s t) (h' : Undisturbed t u) : Undisturbed s u where
  next := h'.next.trans h.next
  phase r := (h'.phase r).trans (h.phase r)
  keys m hm := h.keys m (h'.keys m hm)

theorem setFuture (s : Client H) (r : Nat) (d : ResponseFutureData H) :
    Undisturbed s (s.setFuture r d) where
  next := rfl
  phase _ := phase_setFuture d
  keys _ h := h

theorem setErrorAll (error : ErrorInfo) (rs : List Nat) (s : Client H) :
    Undisturbed s (setErrorAll error rs s).1 := by
  induction rs generalizing s with
  | nil => exact refl s
  | cons r rs ih =>
    cases hset : (s.future r).setError error with
    | error info =>
      simp only [Client.setErrorAll, hset]
      exact refl s
    | ok future =>
      simp only [Client.setErrorAll, hset]
      exact (setFuture s r future).trans (ih _)

theorem receive {data : MessageData} (h : s.receive data = .ok t) : Undisturbed s t := by
  unfold Client.receive at h
  split at h
  · cases h
  · split at h
    · cases h
    · split at h
      · cases h
        exact refl s
      · split at h
        · cases h
        · cases h
          exact setFuture s _ _

theorem onRead (s : Client H) (error : ErrorInfo) (data : MessageData) (order : List Msgid) :
    Undisturbed s (s.onRead error data order).1 := by
  have hread : Undisturbed s s.doRead := ⟨rfl, fun _ => rfl, fun _ h => h⟩
  unfold Client.onRead
  split
  · exact setErrorAll error _ s
  · split
    · rename_i hreceive
      exact hread.trans (receive hreceive)
    · exact hread.trans (setErrorAll error _ s.doRead)
    · exact hread

theorem onWriteError (s : Client H) (m : Msgid) (error : ErrorInfo) :
    Undisturbed s (s.onWriteError m error).1 := by
  unfold Client.onWriteError
  split
  · exact refl s
  · split
    · exact refl s
    · refine ⟨rfl, fun _ => phase_setFuture _, ?_⟩
      intro n hn
      exact (AList.mem_erase.mp hn).2

theorem escape {out : Client H × Option StdException} (h : Undisturbed s out.1) :
    Undisturbed s (Client.escape out) := by
  obtain ⟨u, ex⟩ := out
  cases ex with
  | none => exact h
  | some ex => exact ⟨h.next, h.phase, h.keys⟩

theorem escapeToTransport {out : Client H × Option StdException} (h : Undisturbed s out.1) :
    Undisturbed s (Client.escapeToTransport out) := by
  unfold Client.escapeToTransport
  split
  · exact ⟨h.next, h.phase, h.keys⟩
  · exact h.escape

end Undisturbed

/-- The event is none of another call of `async_request` than call `r`. -/
def Event.Alone (r : Nat) : Event H → Prop
  | .call _ _ => False
  | .fetch r' => r' = r
  | .register r' => r' = r
  | _ => True

/-- The event is part of no call. -/
def Event.Other : Event H → Prop
  | .call _ _ | .fetch _ | .register _ => False
  | _ => True

theorem undisturbed_of_other {e : Event H} (he : s.step e = some t) (hother : e.Other) :
    Undisturbed s t := by
  cases e with
  | call _ _ | fetch _ | register _ => exact absurd hother id
  | start =>
    cases he
    exact ⟨rfl, fun _ => rfl, fun _ h => h⟩
  | notify method params =>
    cases he
    exact ⟨rfl, fun _ => rfl, fun _ h => h⟩
  | setHandler r' handler =>
    obtain ⟨m, -, rfl | ⟨d, -, rfl⟩⟩ := step_setHandler he
    · exact .refl _
    · exact .setFuture s r' d
  | writeDone i error =>
    simp only [step] at he
    split at he
    · cases he
    · have hbase : Undisturbed s { s with writes := s.writes.eraseIdx i } :=
        ⟨rfl, fun _ => rfl, fun _ h => h⟩
      split at he
      · cases he
        exact hbase
      · split at he
        · cases he
          exact (hbase.trans (.onWriteError _ _ error)).escape
        · cases he
          exact hbase
  | readDone error data order =>
    obtain ⟨-, base, rfl, rfl⟩ := step_readDone he
    have hbase : Undisturbed s
        { s with reads := s.reads - 1, readFailed := s.readFailed || error.hasError } :=
      ⟨rfl, fun _ => rfl, fun _ h => h⟩
    split
    · exact (hbase.trans (.onRead _ error data order)).escape
    · exact (hbase.trans (.onRead _ error data order)).escapeToTransport
  | readAgain order =>
    obtain ⟨-, info, caught, base, -, rfl, rfl⟩ := step_readAgain he
    have hbase : Undisturbed s { s with caught, readFailed := true } :=
      ⟨rfl, fun _ => rfl, fun _ h => h⟩
    exact (hbase.trans (.onRead _ info [] order)).escape

/-! ## The search of one call -/

/-- Call `r` has begun `f` rounds after its first, whose candidate was `c`. Every
candidate in front of the last one was among `keys`. -/
structure Searching (keys : List Msgid) (c : Msgid) (r f : Nat) (s : Client H) : Prop where
  used : ∀ j < f, c + UInt32.ofNat j ∈ keys
  round : (∃ m, s.phase r = some (.registered m)) ∨
    s.nextMsgid = c + UInt32.ofNat (f + 1) ∧ (∀ m ∈ s.requests, m ∈ keys) ∧
      (s.phase r = some (.fetched (c + UInt32.ofNat f)) ∨
        s.phase r = some .collided ∧ c + UInt32.ofNat f ∈ keys)

variable {keys : List Msgid} {c : Msgid} {f : Nat}

theorem Searching.undisturbed (h : Searching keys c r f s) (hst : Undisturbed s t) :
    Searching keys c r f t := by
  refine ⟨h.used, ?_⟩
  rw [hst.phase, hst.next]
  rcases h.round with hdone | ⟨hnext, hkeys, hphase⟩
  · exact .inl hdone
  · exact .inr ⟨hnext, fun m hm => hkeys m (hst.keys m hm), hphase⟩

theorem Searching.register (h : Searching keys c r f s) (he : s.step (.register r) = some t) :
    Searching keys c r f t := by
  obtain ⟨call, candidate, hcall, hphase, -⟩ := step_register he
  rcases h.round with ⟨m, hm⟩ | ⟨hnext, hkeys, hfetched | ⟨hcollided, -⟩⟩
  · cases hphase.symm.trans hm
  · cases hphase.symm.trans hfetched
    by_cases hmem : c + UInt32.ofNat f ∈ s.requests
    · rw [step_register_of_mem hphase hmem] at he
      cases he
      exact ⟨h.used, .inr ⟨hnext, hkeys,
        .inr ⟨phase_setPhase_self .collided hphase, hkeys _ hmem⟩⟩⟩
    · have hasked : s.asked r = some (call.method, call.params) := by simp [asked, hcall]
      rw [step_register_of_notMem hphase hasked hmem] at he
      cases he
      exact ⟨h.used, .inl ⟨_, phase_setPhase_self (.registered _) (by exact hphase)⟩⟩
  · cases hphase.symm.trans hcollided

theorem Searching.fetch (h : Searching keys c r f s) (he : s.step (.fetch r) = some t) :
    Searching keys c r (f + 1) t := by
  obtain ⟨hphase, rfl⟩ := step_fetch he
  rcases h.round with ⟨m, hm⟩ | ⟨hnext, hkeys, hfetched | ⟨-, hmem⟩⟩
  · cases hphase.symm.trans hm
  · cases hphase.symm.trans hfetched
  · refine ⟨?_, .inr ⟨?_, hkeys, .inl ?_⟩⟩
    · intro j hj
      rcases Nat.lt_succ_iff_lt_or_eq.mp hj with hlt | rfl
      · exact h.used j hlt
      · exact hmem
    · show s.nextMsgid + 1 = _
      rw [hnext, add_ofNat_succ]
    · rw [← hnext]
      exact phase_setPhase_self (.fetched s.nextMsgid) hphase

/-- The rounds that an event begins. -/
def Event.rounds : Event H → Nat
  | .fetch _ => 1
  | _ => 0

/-- The rounds that the events begin. -/
def fetches (es : List (Event H)) : Nat := (es.map Event.rounds).sum

/-- **One event** of the call or of no call. -/
theorem Searching.step {e : Event H} (h : Searching keys c r f s) (halone : e.Alone r)
    (he : s.step e = some t) : Searching keys c r (f + e.rounds) t := by
  cases e with
  | call method params => exact absurd halone id
  | fetch r' =>
    cases halone
    exact h.fetch he
  | register r' =>
    cases halone
    exact h.register he
  | start | setHandler _ _ | notify _ _ | writeDone _ _ | readDone _ _ _ | readAgain _ =>
    exact h.undisturbed (undisturbed_of_other he trivial)

/-- **A run of one call**, with the events of no other call in between. -/
theorem Searching.run {es : List (Event H)} (h : Searching keys c r f s)
    (halone : ∀ e ∈ es, e.Alone r) (hr : (machine H).run s es = some t) :
    Searching keys c r (f + fetches es) t := by
  induction es generalizing s f with
  | nil =>
    cases hr
    exact h
  | cons e es ih =>
    obtain ⟨he, hes⟩ := List.forall_mem_cons.mp halone
    obtain ⟨u, hu, hrest⟩ := (Machine.run_cons _).mp hr
    have hsearch := ih (h.step he hu) hes hrest
    rwa [Nat.add_assoc] at hsearch

theorem Searching.enabled (h : Searching keys c r f s) (hid : s.idOf r = none) :
    (s.step (.register r)).isSome ∨ (s.step (.fetch r)).isSome := by
  rcases h.round with ⟨m, hm⟩ | ⟨-, -, hfetched | ⟨hcollided, -⟩⟩
  · simp [idOf, hm] at hid
  · obtain ⟨call, hcall, hphase⟩ := exists_call hfetched
    simp [Client.step, hcall, hphase]
  · simp [Client.step, hcollided]

/-- The state in which the loop of a new call begins. -/
theorem searching_call {method : Bytes} {params : List Msgpack.Object}
    (he : s.step (.call method params) = some t) :
    Searching s.requests.keys s.nextMsgid s.calls.length 0 t ∧
      t.phase s.calls.length = some (.fetched s.nextMsgid) ∧ t.nextMsgid = s.nextMsgid + 1 ∧
      t.asked s.calls.length = some (method, params) ∧ t.requests = s.requests ∧
      t.writes = s.writes := by
  cases he
  have hphase : phase { s with
      calls := s.calls ++ [{ method, params, phase := .fetched s.nextMsgid }]
      nextMsgid := s.nextMsgid + 1 } s.calls.length = some (.fetched s.nextMsgid) := by
    simp [phase]
  refine ⟨⟨fun j hj => absurd hj (Nat.not_lt_zero j), .inr ⟨rfl, fun m hm => ?_, .inl ?_⟩⟩,
    hphase, rfl, ?_, rfl, rfl⟩
  · exact AList.mem_keys.mpr hm
  · rw [show s.nextMsgid + UInt32.ofNat 0 = s.nextMsgid from UInt32.add_zero _]
    exact hphase
  · simp [asked]

/-- **Fresh message IDs.** From any state with fewer than 2^32 entries, a call of
`async_request` alone ends after at most one round more than there are entries: it is
registered under an ID that was no key, the other entries stay, and one message is
written, which carries the ID. Reads, writes, handlers and notifications in between do
not make it longer. With any other callers, a round that ends a loop adds one entry under
an ID that was no key, and the entries of two requests never have one ID. -/
theorem async_request_fresh (method : Bytes) (params : List Msgpack.Object) :
    (∀ s : Client H, s.requests.keys.length < 2 ^ 32 →
      (∃ k ≤ s.requests.keys.length, ∃ m t,
        (machine H).run s (.call method params :: loop s.calls.length k) = some t ∧
        m ∉ s.requests ∧ t.idOf s.calls.length = some m ∧
        t.requests.lookup m = some s.calls.length ∧
        (∀ n, n ≠ m → t.requests.lookup n = s.requests.lookup n) ∧
        t.writes = s.writes ++ [⟨some m, packRequest m method params⟩]) ∧
      ∀ es t, (machine H).run s (.call method params :: es) = some t →
        (∀ e ∈ es, e.Alone s.calls.length) →
        fetches es ≤ s.requests.keys.length ∧
        (t.idOf s.calls.length = none → (t.step (.register s.calls.length)).isSome ∨
          (t.step (.fetch s.calls.length)).isSome)) ∧
    (∀ (s : Client H) r t, s.step (.register r) = some t →
      t = s.setPhase r .collided ∨
      ∃ m method params, s.asked r = some (method, params) ∧ m ∉ s.requests ∧
        t.idOf r = some m ∧ t.requests.lookup m = some r ∧
        (∀ n, n ≠ m → t.requests.lookup n = s.requests.lookup n) ∧
        t.writes = s.writes ++ [⟨some m, packRequest m method params⟩]) ∧
    ∀ s : Client H, (machine H).Reachable s → ∀ n m q r, s.requests.lookup n = some q →
      s.requests.lookup m = some r → q ≠ r → s.idOf q ≠ s.idOf r := by
  refine ⟨?_, ?_, ?_⟩
  · intro s hfew
    refine ⟨?_, ?_⟩
    · obtain ⟨k, hk, hfree, hused⟩ := exists_free_candidate hfew s.nextMsgid
      have hcall : s.step (.call method params) = some _ := rfl
      obtain ⟨-, hphase, hnext, hasked, hrequests, hwrites⟩ := searching_call hcall
      obtain ⟨t, hrun, hid, hinsert, hwrite⟩ := run_loop hphase hnext hasked
        (fun j hj => AList.mem_keys.mp (hused j hj)) (fun hm => hfree (AList.mem_keys.mpr hm))
      refine ⟨k, hk, _, t, (Machine.run_cons _).mpr ⟨_, rfl, hrun⟩,
        fun hm => hfree (AList.mem_keys.mpr hm), hid, ?_, ?_, ?_⟩
      · rw [hinsert, AList.lookup_insert]
      · intro n hn
        rw [hinsert, AList.lookup_insert_ne hn]
      · exact hwrite
    · intro es t hr halone
      obtain ⟨u, hu, hr⟩ := (Machine.run_cons _).mp hr
      have hsearch := (searching_call hu).1.run halone hr
      rw [Nat.zero_add] at hsearch
      exact ⟨le_length_of_candidates hfew _ hsearch.used, hsearch.enabled⟩
  · intro s r t he
    obtain ⟨call, m, hcall, hphase, rfl | ⟨hfree, rfl⟩⟩ := step_register he
    · exact .inl rfl
    · have hasked : s.asked r = some (call.method, call.params) := by simp [asked, hcall]
      refine .inr ⟨m, call.method, call.params, hasked, hfree,
        idOf_enroll_self (by exact hphase) _, ?_, ?_, rfl⟩
      · exact AList.lookup_insert s.requests
      · intro n hn
        exact AList.lookup_insert_ne hn
  · intro s hs n m q r hq hr hne hid
    have hinv := inv_of_reachable hs
    rw [hinv.entry n q hq, hinv.entry m r hr, Option.some.injEq] at hid
    subst hid
    exact hne (Option.some.inj (hq.symm.trans hr))

/-- The counter is about to wrap around, and the values on both sides of the limit are in
use. -/
def aroundLimit : Client Unit where
  nextMsgid := 0xffffffff
  requests := (AList.singleton 0xffffffff 0).insert 0 1

theorem async_request_fresh_aroundLimit :
    ((machine Unit).run aroundLimit (.call (ascii "ping") [] :: loop 0 2)).map
        (fun t => (t.idOf 0, t.nextMsgid)) = some (some 1, 2) ∧
      ∃ k ≤ aroundLimit.requests.keys.length, ∃ m t,
        (machine Unit).run aroundLimit (.call (ascii "ping") [] :: loop 0 k) = some t ∧
        m ∉ aroundLimit.requests ∧ t.idOf 0 = some m ∧ t.requests.lookup m = some 0 ∧
        (∀ n, n ≠ m → t.requests.lookup n = aroundLimit.requests.lookup n) ∧
        t.writes = [⟨some m, packRequest m (ascii "ping") []⟩] :=
  ⟨by decide, ((async_request_fresh (ascii "ping") []).1 aroundLimit (by decide)).1⟩

end MpRpc.Client
