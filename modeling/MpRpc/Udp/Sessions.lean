import Mathlib
import MpRpc.Udp.Server
import MpRpc.Server.Answers

/-!
# Sessions — UDP sessions come and go

Every session that the acceptor makes is inserted once and has its removal posted
before its handler ends, so it is never left behind; and the handler re-arms the
receive at its end, whatever becomes of its datagram. The invariant says this of
every point of the handler: a session in `sessions_` has its removal posted, or it
is the one the handler is at.
-/

namespace MpRpc.Udp

variable {A W E : Type*} {methods : SimpleMethodServer A W}
  {parse : Bytes → Except ErrorInfo MessageData}

namespace AcceptPhase

/-- The session the handler is at. -/
def session : AcceptPhase → Option Nat
  | .reading session _ _ => some session
  | _ => none

/-- The message of the handler that has not been looked at. -/
def unread : AcceptPhase → List MessageData
  | .accepting data => [data]
  | .reading _ error data => if error.hasError then [] else [data]
  | _ => []

/-- The receives there are while the handler is here. -/
def armed : AcceptPhase → Nat
  | .idle => 1
  | _ => 0

end AcceptPhase

/-- `message(data)` succeeds or throws `mprpc::exception`. -/
def Readable (data : MessageData) : Prop :=
  ∀ ex, Message.ofData data = .error ex → ∃ info, ex = .exception info

/-- The handler is called, and a message it is called with is not empty and
readable. -/
def Received.Sound (parse : Bytes → Except ErrorInfo MessageData) (received : Received E) :
    Prop :=
  ∃ arguments, onRead parse received = some arguments ∧
    (arguments.error.hasError = false → arguments.data ≠ [] ∧ Readable arguments.data)

namespace UdpServer

variable {s t : UdpServer A}

/-- The event is no receive, or one of a sound datagram. -/
def Event.Sound (parse : Bytes → Except ErrorInfo MessageData) : Event E W → Prop
  | .receive received => received.Sound parse
  | _ => True

/-! ## The invariant -/

structure Inv (s : UdpServer A) : Prop where
  armed : s.posted + s.receives = s.phase.armed
  fresh : ∀ k ∈ s.server.sessions, k < s.server.accepted
  nodup : s.server.sessions.Nodup
  /-- A session is on its way out, or the handler is at it. -/
  removal : ∀ k ∈ s.server.sessions, .remove k ∈ s.server.tasks ∨ s.phase.session = some k
  /-- Every readable message but the one in hand has been dispatched, in order. -/
  dispatched : s.dispatched ++ s.phase.unread.filterMap accepted =
    s.datagrams.filterMap accepted
  unread : ∀ data ∈ s.phase.unread, data ≠ [] ∧ Readable data

theorem inv_init : Inv (doAccept ({} : UdpServer A)) where
  armed := rfl
  fresh := by simp [doAccept]
  nodup := List.nodup_nil
  removal := by simp [doAccept]
  dispatched := rfl
  unread := by simp [doAccept, AcceptPhase.unread]

theorem asyncRead_nil (session : Nat) : ∃ error, error.hasError = true ∧
    asyncRead session [] = .reading session error [] := ⟨_, rfl, rfl⟩

theorem asyncRead_of_ne_nil {data : MessageData} (h : data ≠ []) (session : Nat) :
    asyncRead session data = .reading session {} data := by
  simp [asyncRead, h]

theorem Inv.onReceiveDone (h : s.Inv) {n : Nat} (hphase : s.phase = .idle)
    (hreceives : s.receives = n + 1) {received : Received E} (hsound : received.Sound parse) :
    (UdpServer.onReceiveDone parse { s with receives := n } received).Inv := by
  have harmed := h.armed
  have hunread := h.dispatched
  have hremoval : ∀ k ∈ s.server.sessions, .remove k ∈ s.server.tasks := by
    intro k hk
    apply (h.removal k hk).resolve_right
    simp [hphase, AcceptPhase.session]
  rw [hphase] at harmed hunread
  simp only [AcceptPhase.armed, AcceptPhase.unread, List.filterMap_nil, List.append_nil]
    at harmed hunread
  obtain ⟨arguments, hread, hsound⟩ := hsound
  simp only [UdpServer.onReceiveDone, hread, onReceive]
  by_cases herror : arguments.error.hasError
  · rw [if_pos herror]
    refine ⟨?_, h.fresh, h.nodup, fun k hk => .inl (hremoval k hk), ?_,
      by simp [AcceptPhase.unread]⟩
    · show s.posted + n = 0
      omega
    · simpa [AcceptPhase.unread] using hunread
  · rw [if_neg herror]
    refine ⟨?_, h.fresh, h.nodup, fun k hk => .inl (hremoval k hk), ?_, ?_⟩
    · show s.posted + n = 0
      omega
    · show s.dispatched ++ [arguments.data].filterMap accepted = _
      rw [hunread, List.filterMap_append]
    · intro data hdata
      rw [List.mem_singleton.mp hdata]
      exact hsound (by simpa using herror)

/-! ## The handler on the strand -/

/-- `on_accept` inserts the new session, and its first read has the message. -/
theorem Inv.accept (h : s.Inv) {data : MessageData} (hphase : s.phase = .accepting data) :
    Inv { s with
      server := { s.server with
        sessions := s.server.sessions ++ [s.server.accepted], accepted := s.server.accepted + 1 }
      phase := asyncRead s.server.accepted data } := by
  have hdata := h.unread data (by simp [hphase, AcceptPhase.unread])
  rw [asyncRead_of_ne_nil hdata.1]
  refine ⟨?_, ?_, ?_, ?_, ?_, ?_⟩
  · have harmed := h.armed
    rwa [hphase] at harmed
  · intro k hk
    show k < s.server.accepted + 1
    rcases List.mem_append.mp hk with hk | hk
    · have hlt := h.fresh k hk
      omega
    · rw [List.mem_singleton.mp hk]
      omega
  · refine List.nodup_append.mpr ⟨h.nodup, List.nodup_singleton _, ?_⟩
    intro k hk m hm heq
    have hlt := h.fresh k hk
    rw [heq, List.mem_singleton.mp hm] at hlt
    exact Nat.lt_irrefl _ hlt
  · intro k hk
    rcases List.mem_append.mp hk with hk | hk
    · apply Or.inl
      apply (h.removal k hk).resolve_right
      simp [hphase, AcceptPhase.session]
    · rw [List.mem_singleton.mp hk]
      exact .inr rfl
  · have hdispatched := h.dispatched
    rwa [hphase] at hdispatched
  · intro d hd
    rw [List.mem_singleton.mp hd]
    exact hdata

/-- `on_read` with an error posts the removal of the session it is at. -/
theorem Inv.remove (h : s.Inv) {session : Nat} {error : ErrorInfo} {data : MessageData}
    (hphase : s.phase = .reading session error data) (herror : error.hasError = true) :
    Inv { s with server := s.server.asyncRemoveSession session, phase := .rearming } := by
  refine ⟨?_, h.fresh, h.nodup, ?_, ?_, by simp [AcceptPhase.unread]⟩
  · have harmed := h.armed
    rwa [hphase] at harmed
  · intro k hk
    apply Or.inl
    apply List.mem_append.mpr
    rcases h.removal k hk with hk | hk
    · exact .inl hk
    · rw [hphase] at hk
      rw [Option.some.inj hk]
      exact .inr (List.mem_singleton.mpr rfl)
  · have hdispatched := h.dispatched
    rw [hphase] at hdispatched
    simpa [AcceptPhase.unread, herror] using hdispatched

/-- A readable message is answered by one posted closure: that of the method
server, or the removal of the session. -/
theorem asyncProcessMessage_of_readable (server : Server A) (origin session : Nat)
    {data : MessageData} (h : Readable data) :
    ∃ task, server.asyncProcessMessage origin session data = .ok (server.post task) := by
  unfold Server.asyncProcessMessage
  cases hd : Message.ofData data with
  | ok msg => exact ⟨_, rfl⟩
  | error ex =>
    obtain ⟨info, rfl⟩ := h ex hd
    exact ⟨_, rfl⟩

/-- `on_read` without an error dispatches the message in hand, if it is
accepted, and the second read of the session fails. -/
theorem Inv.process (h : s.Inv) {session : Nat} {error : ErrorInfo} {data : MessageData}
    (hphase : s.phase = .reading session error data) (herror : error.hasError = false) :
    (s.process session data).Inv := by
  have hunread : s.phase.unread = [data] := by simp [hphase, AcceptPhase.unread, herror]
  obtain ⟨-, hreadable⟩ := h.unread data (by simp [hunread])
  obtain ⟨task, htask⟩ := asyncProcessMessage_of_readable
    { s.server with received := s.server.received ++ [(session, data)] }
    s.server.received.length session hreadable
  obtain ⟨second, hsecond, hread⟩ := asyncRead_nil session
  simp only [UdpServer.process, htask, hread]
  refine ⟨?_, h.fresh, h.nodup, ?_, ?_, by simp [AcceptPhase.unread, hsecond]⟩
  · have harmed := h.armed
    rwa [hphase] at harmed
  · intro k hk
    rcases h.removal k hk with hk | hk
    · exact .inl (List.mem_append_left _ hk)
    · rw [hphase] at hk
      exact .inr hk
  · have hdispatched := h.dispatched
    rw [hunread] at hdispatched
    simp only [AcceptPhase.unread, hsecond, if_true, List.filterMap_nil, List.append_nil]
    rw [← hdispatched]
    rfl

theorem Inv.advance (h : s.Inv) (hs : s.advance = some t) : t.Inv := by
  unfold UdpServer.advance at hs
  cases hphase : s.phase with
  | idle => simp [hphase] at hs
  | accepting data =>
    simp only [hphase] at hs
    cases hs
    exact h.accept hphase
  | reading session error data =>
    simp only [hphase] at hs
    by_cases herror : error.hasError
    · rw [if_pos herror] at hs
      cases hs
      exact h.remove hphase herror
    · rw [if_neg herror] at hs
      cases hs
      exact h.process hphase (by simpa using herror)
  | rearming =>
    simp only [hphase] at hs
    cases hs
    have harmed := h.armed
    have hdispatched := h.dispatched
    rw [hphase] at harmed hdispatched
    refine ⟨?_, h.fresh, h.nodup, ?_, hdispatched, by simp [doAccept, AcceptPhase.unread]⟩
    · simp only [doAccept, AcceptPhase.armed] at harmed ⊢
      omega
    · intro k hk
      apply Or.inl
      apply (h.removal k hk).resolve_right
      simp [hphase, AcceptPhase.session]

/-! ## The workers -/

/-- A closure that is run takes its own session out of `sessions_`, if it is a
removal, and leaves the others and their removals. -/
theorem Inv.runTask (h : s.Inv) {i : Nat} {task : Task} (w : W)
    (htask : s.server.tasks[i]? = some task) :
    Inv { s with
      server := Server.runTask methods { s.server with tasks := s.server.tasks.eraseIdx i } w
        task } := by
  have hkeep : ∀ k, .remove k ∈ s.server.tasks → task ≠ .remove k →
      .remove k ∈ s.server.tasks.eraseIdx i := by
    intro k hk hne
    rcases List.mem_cons.mp ((perm_cons_eraseIdx htask).mem_iff.mpr hk) with heq | hmem
    · exact absurd heq.symm hne
    · exact hmem
  cases task with
  | remove removed =>
    refine ⟨h.armed, ?_, h.nodup.erase removed, ?_, h.dispatched, h.unread⟩
    · exact fun k hk => h.fresh k (List.mem_of_mem_erase hk)
    · intro k hk
      obtain ⟨hne, hmem⟩ := h.nodup.mem_erase_iff.mp hk
      rcases h.removal k hmem with hk | hk
      · exact .inl (hkeep k hk (by simpa using hne.symm))
      · exact .inr hk
  | process origin session msg =>
    obtain ⟨thrown, heq⟩ := Server.runProcess_eq methods
      { s.server with tasks := s.server.tasks.eraseIdx i } origin session msg w
    simp only [Server.runTask, heq]
    refine ⟨h.armed, h.fresh, h.nodup, ?_, h.dispatched, h.unread⟩
    intro k hk
    rcases h.removal k hk with hk | hk
    · exact .inl (hkeep k hk (by simp))
    · exact .inr hk

/-- **Step lemma.** -/
theorem Inv.step (h : s.Inv) {e : Event E W} (he : e.Sound parse)
    (hs : UdpServer.step methods parse s e = some t) : t.Inv := by
  cases e with
  | runPosted =>
    simp only [UdpServer.step] at hs
    split at hs
    · rename_i n hphase hposted
      cases hs
      refine ⟨?_, h.fresh, h.nodup, h.removal, h.dispatched, h.unread⟩
      have harmed := h.armed
      simp only at harmed ⊢
      omega
    · cases hs
  | receive received =>
    simp only [UdpServer.step] at hs
    split at hs
    · rename_i n hphase hreceives
      cases hs
      exact h.onReceiveDone hphase hreceives he
    · cases hs
  | advance => exact h.advance hs
  | runTask i w =>
    simp only [UdpServer.step] at hs
    split at hs
    · cases hs
    · rename_i task htask
      cases hs
      exact h.runTask w htask

/-- What holds at every point of a run. -/
structure Balanced (s : UdpServer A) : Prop where
  /-- Every accepted message has been dispatched once, in the order of the
  datagrams, but for the one the handler has not come to yet. -/
  dispatched : s.dispatched ++ s.phase.unread.filterMap accepted =
    s.datagrams.filterMap accepted
  /-- Between datagrams one receive is outstanding or about to be issued. -/
  receive : s.phase = .idle → s.posted + s.receives = 1
  /-- A session has its removal posted, or its handler has not ended. -/
  removal : ∀ k ∈ s.server.sessions, .remove k ∈ s.server.tasks ∨ s.phase.session = some k
  /-- When no closure is left and no handler runs, there is no session. -/
  sessions : s.phase = .idle → s.server.tasks = [] → s.server.sessions = []

theorem Inv.balanced (h : s.Inv) : s.Balanced where
  dispatched := h.dispatched
  receive hphase := by
    rw [h.armed, hphase]
    rfl
  removal := h.removal
  sessions hphase htasks := by
    apply List.eq_nil_iff_forall_not_mem.mpr
    intro k hk
    rcases h.removal k hk with hk | hk
    · simp [htasks] at hk
    · simp [hphase, AcceptPhase.session] at hk

/-- A request and an object that is no message arrive. The closure of the request
runs while its handler is still busy, the three removals at the end. -/
def requestThenNil : List (Event Nat Unit) :=
  [.runPosted, .receive (.datagram 5 (packRequest 7 (ascii "echo") [.nil])), .advance, .advance,
    .runTask 0 (), .advance, .advance, .runPosted, .receive (.datagram 6 (Msgpack.pack .nil)),
    .advance, .advance, .advance, .advance, .runTask 0 (), .runTask 0 (), .runTask 0 ()]

theorem sound_requestThenNil : ∀ e ∈ requestThenNil, e.Sound msgpackParse := by
  have hrequest : Message.ofData (packRequest 7 (ascii "echo") [.nil]) =
      .ok (Message.request 7 (ascii "echo") [.nil]) :=
    ofData_packRequest 7 (by decide) (by decide)
  have hfirst : Received.Sound msgpackParse
      (.datagram 5 (packRequest 7 (ascii "echo") [.nil]) : Received Nat) := by
    refine ⟨_, rfl, fun _ => ⟨by decide, ?_⟩⟩
    intro ex hex
    have hok : Message.ofData (packRequest 7 (ascii "echo") [.nil]) = .error ex := hex
    rw [hrequest] at hok
    cases hok
  have hsecond : Received.Sound msgpackParse (.datagram 6 (Msgpack.pack .nil) : Received Nat) := by
    refine ⟨_, rfl, fun _ => ⟨by decide, ?_⟩⟩
    intro ex hex
    cases hex
    exact ⟨_, rfl⟩
  simp [requestThenNil, Event.Sound, hfirst, hsecond]

end UdpServer

end MpRpc.Udp
