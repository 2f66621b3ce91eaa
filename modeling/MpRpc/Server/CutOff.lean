import MpRpc.Server.Answers

/-!
# CutOff — a session with a malformed message

`async_process_message` answers a malformed message by posting the removal of the
session, and `on_read` issues the next read of the session all the same. Until
the removal has run, and as long after it as a closure holds the session, that
read can complete, and its message is passed to the method server. A read error
is handled otherwise: `on_read` posts the removal and returns.
-/

namespace MpRpc.Server

variable {A W : Type*} {server : SimpleMethodServer A W} {s t : Server A}

/-- `message(data)` throws the exception that `async_process_message` catches. -/
def Malformed (data : MessageData) : Prop :=
  ∃ info, Message.ofData data = .error (.exception info)

/-- A message of the session has been rejected. -/
def Rejected (s : Server A) (session : Nat) : Prop :=
  ∃ data, (session, data) ∈ s.received ∧ Malformed data

/-- The step from `s` to `t` passes a message of the session to the method
server, which posts a closure for it. -/
def PassesOn (s t : Server A) (session : Nat) : Prop :=
  ∃ origin msg, .process origin session msg ∈ t.tasks ∧ .process origin session msg ∉ s.tasks

/-- No message of a session is passed on after one that was rejected. -/
def CutOff (server : SimpleMethodServer A W) (s : Server A) (e : Event W) : Prop :=
  ∀ t, s.step server e = some t → ∀ session, s.Rejected session → ¬ PassesOn s t session

/-- The event completes a read of the session with a well-formed message, and
the session still exists. -/
def Arrives (s : Server A) (e : Event W) (session : Nat) : Prop :=
  ∃ i error data msg, e = .readDone i error data ∧ s.reads[i]? = some session ∧
    s.alive session ∧ error.hasError = false ∧ Message.ofData data = .ok msg

/-- A step that posts nothing passes nothing on. -/
theorem not_passesOn_of_subset {session : Nat} (h : t.tasks ⊆ s.tasks) :
    ¬ PassesOn s t session := by
  intro hp
  obtain ⟨origin, msg, hmem, hnew⟩ := hp
  exact hnew (h hmem)

/-- What `on_read` posts. -/
def onReadPosts (s : Server A) (session : Nat) (error : ErrorInfo) (data : MessageData) :
    List Task :=
  if error.hasError then [.remove session]
  else
    match Message.ofData data with
    | .ok msg => [.process s.received.length session msg]
    | .error (.exception _) => [.remove session]
    | .error _ => []

theorem tasks_onRead (s : Server A) (session : Nat) (error : ErrorInfo) (data : MessageData) :
    (s.onRead session error data).tasks = s.tasks ++ s.onReadPosts session error data := by
  unfold onRead onReadPosts asyncProcessMessage
  split
  · rfl
  · cases Message.ofData data with
    | ok msg => rfl
    | error ex => cases ex <;> simp [asyncRemoveSession, post, doRead]

/-- The closure of a message just received is a new one. -/
theorem Inv.not_mem_tasks (h : s.Inv) (session : Nat) (msg : Message) :
    .process s.received.length session msg ∉ s.tasks := by
  intro hmem
  obtain ⟨data, hdata, -⟩ := h.task _ _ _ hmem
  exact absurd (List.getElem?_eq_some_iff.mp hdata).1 (Nat.lt_irrefl _)

/-- **`on_read` passes on** a well-formed message of its own session, and nothing
else. -/
theorem Inv.passesOn_onRead (h : s.Inv) (own session : Nat) (error : ErrorInfo)
    (data : MessageData) :
    PassesOn s (s.onRead own error data) session ↔
      session = own ∧ error.hasError = false ∧ ∃ msg, Message.ofData data = .ok msg := by
  have hnew : PassesOn s (s.onRead own error data) session ↔
      ∃ origin msg, .process origin session msg ∈ s.onReadPosts own error data ∧
        .process origin session msg ∉ s.tasks := by
    simp only [PassesOn, tasks_onRead, List.mem_append]
    constructor
    · intro hp
      obtain ⟨origin, msg, hmem, hn⟩ := hp
      exact ⟨origin, msg, hmem.resolve_left hn, hn⟩
    · intro hp
      obtain ⟨origin, msg, hmem, hn⟩ := hp
      exact ⟨origin, msg, .inr hmem, hn⟩
  rw [hnew, onReadPosts]
  cases herror : error.hasError with
  | true => simp
  | false =>
    cases hd : Message.ofData data with
    | ok msg =>
      have hfresh := h.not_mem_tasks own msg
      constructor
      · intro hp
        obtain ⟨origin, msg', hmem, -⟩ := hp
        cases List.mem_singleton.mp hmem
        exact ⟨rfl, rfl, msg, rfl⟩
      · intro hp
        obtain ⟨rfl, -, -⟩ := hp
        exact ⟨_, msg, List.mem_singleton.mpr rfl, hfresh⟩
    | error ex => cases ex <;> simp

/-- **One step passes on** a message of a session exactly if one arrives. -/
theorem Inv.passesOn_step (h : s.Inv) {e : Event W} (hs : s.step server e = some t)
    {session : Nat} : PassesOn s t session ↔ Arrives s e session := by
  cases e with
  | accept =>
    cases hs
    exact iff_of_false (not_passesOn_of_subset (List.Subset.refl _)) (by simp [Arrives])
  | disconnect gone =>
    cases hs
    exact iff_of_false (not_passesOn_of_subset (List.Subset.refl _)) (by simp [Arrives])
  | runTask i w =>
    refine iff_of_false (not_passesOn_of_subset ?_) (by simp [Arrives])
    obtain ⟨task, htask, rfl⟩ := step_runTask hs
    have hsub := List.eraseIdx_subset (l := s.tasks) (k := i)
    cases task with
    | remove removed => exact hsub
    | process origin own msg =>
      obtain ⟨thrown, heq⟩ := runProcess_eq server { s with tasks := s.tasks.eraseIdx i }
        origin own msg w
      rw [runTask, heq]
      exact hsub
  | readDone i error data =>
    have hbase : Inv { s with reads := s.reads.eraseIdx i } := h.of_same rfl rfl rfl rfl
    obtain ⟨own, hown, hcases⟩ := step_readDone hs
    have harrives : Arrives s (.readDone i error data : Event W) session ↔
        session = own ∧ s.alive session ∧ error.hasError = false ∧
          ∃ msg, Message.ofData data = .ok msg := by
      simp only [Arrives, Event.readDone.injEq]
      constructor
      · intro ha
        obtain ⟨i, error, data, msg, ⟨rfl, rfl, rfl⟩, hi, halive, herror, hd⟩ := ha
        rw [hown] at hi
        cases hi
        exact ⟨rfl, halive, herror, msg, hd⟩
      · intro ha
        obtain ⟨rfl, halive, herror, msg, hd⟩ := ha
        exact ⟨i, error, data, msg, ⟨rfl, rfl, rfl⟩, hown, halive, herror, hd⟩
    rw [harrives]
    rcases hcases with ⟨halive, rfl⟩ | ⟨hdead, rfl⟩
    · refine (hbase.passesOn_onRead own session error data).trans ?_
      constructor
      · intro hp
        obtain ⟨rfl, hrest⟩ := hp
        exact ⟨rfl, halive, hrest⟩
      · intro hp
        exact ⟨hp.1, hp.2.2⟩
    · refine iff_of_false (not_passesOn_of_subset (List.Subset.refl _)) ?_
      intro hp
      obtain ⟨rfl, halive, -⟩ := hp
      rw [hdead] at halive
      cases halive

/-- **When a rejected session is cut off**: along a run, no message of a session
is passed to the method server after a rejected one exactly if no well-formed
message of such a session arrives while the session still exists. -/
theorem cutOff_iff_nothing_arrives {es : List (Event W)}
    (hr : (machine server).run {} es = some s) :
    (machine server).EachStep (CutOff server) {} es ↔
      (machine server).EachStep
        (fun s e => ∀ session, s.Rejected session → ¬ Arrives s e session) {} es := by
  apply Machine.eachStep_congr (J := Inv) (fun _ _ _ h he => h.step he) ?_ inv_init hr
  intro s e t h ht
  have ht : s.step server e = some t := ht
  simp only [CutOff, ht, Option.some.injEq, forall_eq', h.passesOn_step ht]

/-- A session sends the object nil, which is no message, and then a request for
the method `echo`; the request arrives before the removal has run. -/
def nilThenRequest : List (Event Unit) :=
  [.accept, .readDone 0 {} (Msgpack.pack .nil),
    .readDone 0 {} (packRequest 7 (ascii "echo") [.nil])]

theorem cutOff_iff_nothing_arrives_nilThenRequest :
    (machine echoServer).EachStep (CutOff echoServer) {} nilThenRequest ↔
      (machine echoServer).EachStep
        (fun s e => ∀ session, s.Rejected session → ¬ Arrives s e session) {}
          nilThenRequest :=
  cutOff_iff_nothing_arrives rfl

/-- The request of the rejected session is passed on, and its closure calls the
user's function while the removal still waits. -/
theorem rejected_session_still_served :
    ¬ (machine echoServer).EachStep (CutOff echoServer) {} nilThenRequest ∧
      ∃ s, (machine echoServer).run {} (nilThenRequest ++ [.runTask 1 ()]) = some s ∧
        s.Rejected 0 ∧ s.invocations.map Prod.fst = [1] ∧ s.sessions = [0] := by
  have hnil : Malformed (Msgpack.pack .nil) := ⟨_, rfl⟩
  constructor
  · intro h
    have hcut := ((h.2 _ rfl).2 _ rfl).1
    apply hcut _ rfl 0 ⟨_, List.mem_cons_self, hnil⟩
    refine ⟨1, _, List.mem_cons_of_mem _ List.mem_cons_self, ?_⟩
    intro hmem
    cases List.mem_singleton.mp hmem
  · exact ⟨_, rfl, ⟨_, List.mem_cons_self, hnil⟩, rfl, rfl⟩

end MpRpc.Server
