import Mathlib
import MpRpc.Machine

/-!
# ThreadPool — the life of a `thread_pool`

The outside thread calls `start`, `stop` and at last the destructor. The threads of the
pool run `io_context::run`, which returns when the context is stopped; one of them may also
end because a function that was posted throws. `start` looks at the vector of threads, and
`stop` looks at the context, which stays stopped for ever. A thread that is created after
that is never joined, and the destructor of a thread that can be joined is
`std::terminate`.
-/

namespace MpRpc

namespace ThreadPool

/-- A `std::thread` of the pool. -/
inductive Thread where
  | running
  /-- `process_in_thread` has returned -/
  | finished
  | joined
deriving DecidableEq, Repr

/-- `joinable()` -/
def Thread.joinable : Thread → Bool
  | .joined => false
  | _ => true

/-- Where the outside thread is. -/
inductive Caller where
  /-- in no function of the pool -/
  | idle
  /-- in the loop of `stop`, which joins the thread at `next`; the flag says whether the
  destructor has called it -/
  | joining (next : Nat) (destructor : Bool)
  | destroyed
  | terminated
deriving DecidableEq, Repr

/-- The members, the outside thread, and how many threads could be joined when `stop`
returned, in order. -/
structure Pool where
  numThreads : Nat
  /-- `context.stopped()` -/
  stopped : Bool := false
  threads : List Thread := []
  caller : Caller := .idle
  left : List Nat := []
deriving DecidableEq, Repr

namespace Pool

/-- How many threads can be joined. -/
def joinable (s : Pool) : Nat := s.threads.countP Thread.joinable

/-- `start`, where `created` threads can be created before the constructor of one throws. -/
def start (s : Pool) (created : Nat) : Pool :=
  if s.threads.isEmpty then { s with threads := List.replicate created .running } else s

/-- `delete impl_`, which destroys the threads. -/
def delete (s : Pool) : Pool :=
  { s with caller := if s.joinable = 0 then .destroyed else .terminated }

/-- `stop` returns. -/
def stopReturns (s : Pool) (destructor : Bool) : Pool :=
  let s := { s with caller := .idle, left := s.left ++ [s.joinable] }
  if destructor then s.delete else s

/-- `stop` until it joins the first thread. -/
def stop (s : Pool) (destructor : Bool) : Pool :=
  if s.stopped then s.stopReturns destructor
  else { s with stopped := true, caller := .joining 0 destructor }

/-- `threads.clear()` at the end of `stop`. -/
def clear (s : Pool) : Pool := { s with threads := [] }

end Pool

/-- What happens to the pool. -/
inductive Event where
  /-- the outside thread calls `start` -/
  | start (created : Nat)
  /-- the outside thread calls `stop` -/
  | stop
  /-- the outside thread calls the destructor -/
  | destroy
  /-- `process_in_thread` returns, perhaps because a function has thrown -/
  | finish (i : Nat) (thrown : Bool)
  /-- the loop of `stop` goes on -/
  | join
deriving DecidableEq, Repr

/-- The loop of `stop`: a thread that runs is waited for. -/
def stepJoin (s : Pool) (next : Nat) (destructor : Bool) : Option Pool :=
  match s.threads[next]? with
  | none => some (s.clear.stopReturns destructor)
  | some .finished =>
      some { s with
        threads := s.threads.set next .joined
        caller := .joining (next + 1) destructor }
  | some _ => none

/-- `run` returns only while the context is stopped. -/
def stepFinish (s : Pool) (i : Nat) (thrown : Bool) : Option Pool :=
  if s.threads[i]? = some .running ∧ (s.stopped || thrown) = true then
    some { s with threads := s.threads.set i .finished }
  else none

def step (s : Pool) (e : Event) : Option Pool :=
  match e with
  | .start created =>
      if s.caller = .idle ∧ created ≤ s.numThreads then some (s.start created) else none
  | .stop => if s.caller = .idle then some (s.stop false) else none
  | .destroy => if s.caller = .idle then some (s.stop true) else none
  | .finish i thrown => stepFinish s i thrown
  | .join =>
      match s.caller with
      | .joining next destructor => stepJoin s next destructor
      | _ => none

def machine (numThreads : Nat) : Machine Pool Event where
  init := { numThreads }
  step := step

/-- `stop` has left no thread that can be joined, and the destructor has destroyed none. -/
def Pool.Tidy (s : Pool) : Prop := (∀ n ∈ s.left, n = 0) ∧ s.caller ≠ .terminated

/-- No thread is created while the context is stopped. -/
def StartsInTime (s : Pool) : Event → Prop
  | .start created => s.stopped = true → (s.start created).threads = s.threads
  | _ => True

/-- The destructor has come to its end. -/
def Pool.Ended (s : Pool) : Prop := s.caller = .destroyed ∨ s.caller = .terminated

/-! ## Runs -/

variable {s t : Pool} {e : Event}

/-- The invariant of pools that are started in time. -/
structure Pool.Inv (s : Pool) : Prop where
  idle : s.caller = .idle → s.stopped = true → s.threads = []
  joining : ∀ next destructor, s.caller = .joining next destructor → s.stopped = true
  left : ∀ n ∈ s.left, n = 0
  terminated : s.caller ≠ .terminated
  destroyed : s.caller = .destroyed → s.threads = []

/-- `stop` returns to a pool without threads. -/
theorem Pool.Inv.stopReturns (hinv : s.Inv) (hthreads : s.threads = []) (destructor : Bool) :
    (s.stopReturns destructor).Inv := by
  have hjoinable : s.joinable = 0 := by
    unfold Pool.joinable
    rw [hthreads]
    rfl
  have hleft : ∀ n ∈ s.left ++ [s.joinable], n = 0 := by
    intro n hn
    rcases List.mem_append.mp hn with hn | hn
    · exact hinv.left n hn
    · rw [List.mem_singleton.mp hn, hjoinable]
  cases destructor with
  | false =>
    refine ⟨fun _ _ => hthreads, ?_, hleft, ?_, ?_⟩
    · intro next destructor hcaller
      cases hcaller
    · intro hcaller
      cases hcaller
    · intro hcaller
      cases hcaller
  | true =>
    have hdestroyed : (s.stopReturns true).caller = .destroyed := if_pos hjoinable
    refine ⟨?_, ?_, hleft, ?_, fun _ => hthreads⟩
    · rw [hdestroyed]
      intro hcaller
      cases hcaller
    · rw [hdestroyed]
      intro next destructor hcaller
      cases hcaller
    · rw [hdestroyed]
      intro hcaller
      cases hcaller

/-- `stop` is called. -/
theorem Pool.Inv.stop (hinv : s.Inv) (hidle : s.caller = .idle) (destructor : Bool) :
    (s.stop destructor).Inv := by
  unfold Pool.stop
  split
  · rename_i hstopped
    exact hinv.stopReturns (hinv.idle hidle hstopped) destructor
  · refine ⟨?_, fun _ _ _ => rfl, hinv.left, ?_, ?_⟩
    · intro hcaller
      cases hcaller
    · intro hcaller
      cases hcaller
    · intro hcaller
      cases hcaller

/-- Threads that change while `stop` waits for them, or before it is called. -/
theorem Pool.Inv.withThreads (hinv : s.Inv) {threads : List Thread}
    (hnil : s.threads = [] → threads = []) : ({ s with threads } : Pool).Inv :=
  ⟨fun hidle hstopped => hnil (hinv.idle hidle hstopped), hinv.joining, hinv.left,
    hinv.terminated, fun hdestroyed => hnil (hinv.destroyed hdestroyed)⟩

/-- **One step** of a pool that is started in time. -/
theorem inv_step (hinv : s.Inv) (htime : StartsInTime s e) (hstep : step s e = some t) :
    t.Inv := by
  cases e with
  | start created =>
    simp only [step, Option.ite_none_right_eq_some, Option.some.injEq] at hstep
    obtain ⟨⟨hidle, -⟩, ht⟩ := hstep
    have hfields : t.stopped = s.stopped ∧ t.caller = s.caller ∧ t.left = s.left := by
      rw [← ht]
      unfold Pool.start
      split <;> exact ⟨rfl, rfl, rfl⟩
    obtain ⟨hstopped, hcaller, hleft⟩ := hfields
    refine ⟨?_, ?_, ?_, ?_, ?_⟩
    · rw [hcaller, hstopped]
      intro _ hs
      rw [← ht, htime hs]
      exact hinv.idle hidle hs
    · rw [hcaller, hstopped]
      exact hinv.joining
    · rw [hleft]
      exact hinv.left
    · rw [hcaller]
      exact hinv.terminated
    · rw [hcaller, hidle]
      intro hdestroyed
      cases hdestroyed
  | stop =>
    simp only [step, Option.ite_none_right_eq_some, Option.some.injEq] at hstep
    rw [← hstep.2]
    exact hinv.stop hstep.1 false
  | destroy =>
    simp only [step, Option.ite_none_right_eq_some, Option.some.injEq] at hstep
    rw [← hstep.2]
    exact hinv.stop hstep.1 true
  | finish i thrown =>
    simp only [step, stepFinish, Option.ite_none_right_eq_some, Option.some.injEq] at hstep
    rw [← hstep.2]
    refine hinv.withThreads ?_
    intro hnil
    rw [hnil, List.set_nil]
  | join =>
    simp only [step] at hstep
    split at hstep
    · rename_i next destructor hcaller
      have hstopped := hinv.joining next destructor hcaller
      unfold stepJoin at hstep
      split at hstep
      · cases hstep
        have hclear : s.clear.Inv := hinv.withThreads (fun _ => rfl)
        exact hclear.stopReturns rfl destructor
      · cases hstep
        refine ⟨?_, fun _ _ _ => hstopped, hinv.left, ?_, ?_⟩
        · intro hidle
          cases hidle
        · intro hterminated
          cases hterminated
        · intro hdestroyed
          cases hdestroyed
      · cases hstep
    · cases hstep

theorem inv_init (numThreads : Nat) : Pool.Inv { numThreads } where
  idle _ _ := rfl
  joining _ _ hcaller := by cases hcaller
  left _ hn := absurd hn List.not_mem_nil
  terminated hcaller := by cases hcaller
  destroyed _ := rfl

/-! ## A thread that nobody joins -/

/-- A thread has been left, or one has been created in a pool that is stopped. -/
def Pool.Doomed (s : Pool) : Prop :=
  (∃ n ∈ s.left, n ≠ 0) ∨ s.stopped = true ∧ s.caller = .idle ∧ s.joinable ≠ 0

theorem left_stopReturns (s : Pool) (destructor : Bool) :
    (s.stopReturns destructor).left = s.left ++ [s.joinable] := by
  cases destructor with
  | false => rfl
  | true => rfl

theorem mem_left_stop (destructor : Bool) {n : Nat} (hn : n ∈ s.left) :
    n ∈ (s.stop destructor).left := by
  unfold Pool.stop
  split
  · rw [left_stopReturns]
    exact List.mem_append_left _ hn
  · exact hn

/-- What `stop` has left stays on record. -/
theorem mem_left_step (hstep : step s e = some t) {n : Nat} (hn : n ∈ s.left) : n ∈ t.left := by
  cases e with
  | start created =>
    simp only [step, Option.ite_none_right_eq_some, Option.some.injEq] at hstep
    rw [← hstep.2]
    unfold Pool.start
    split
    · exact hn
    · exact hn
  | stop =>
    simp only [step, Option.ite_none_right_eq_some, Option.some.injEq] at hstep
    rw [← hstep.2]
    exact mem_left_stop false hn
  | destroy =>
    simp only [step, Option.ite_none_right_eq_some, Option.some.injEq] at hstep
    rw [← hstep.2]
    exact mem_left_stop true hn
  | finish i thrown =>
    simp only [step, stepFinish, Option.ite_none_right_eq_some, Option.some.injEq] at hstep
    rw [← hstep.2]
    exact hn
  | join =>
    simp only [step] at hstep
    split at hstep
    · unfold stepJoin at hstep
      split at hstep
      · cases hstep
        rw [left_stopReturns]
        exact List.mem_append_left _ hn
      · cases hstep
        exact hn
      · cases hstep
    · cases hstep

/-- `stop` returns at once from a pool that is stopped, whatever its threads do. -/
theorem Pool.Doomed.stop (hstopped : s.stopped = true) (hjoinable : s.joinable ≠ 0)
    (destructor : Bool) : (s.stop destructor).Doomed := by
  refine .inl ⟨s.joinable, ?_, hjoinable⟩
  rw [Pool.stop, if_pos hstopped, left_stopReturns]
  exact List.mem_append_right _ List.mem_cons_self

/-- A thread that finishes can still be joined. -/
theorem joinable_finish {i : Nat} (hrunning : s.threads[i]? = some .running) :
    ({ s with threads := s.threads.set i .finished } : Pool).joinable = s.joinable := by
  obtain ⟨hlt, hget⟩ := List.getElem?_eq_some_iff.mp hrunning
  have hpos : 0 < s.threads.countP Thread.joinable :=
    List.countP_pos_iff.mpr ⟨_, List.getElem_mem hlt, by rw [hget]; rfl⟩
  show (s.threads.set i .finished).countP Thread.joinable = s.threads.countP Thread.joinable
  rw [List.countP_set hlt, hget]
  simp only [Thread.joinable, if_true]
  omega

/-- **What is lost stays lost.** -/
theorem doomed_step (hdoomed : s.Doomed) (hstep : step s e = some t) : t.Doomed := by
  rcases hdoomed with ⟨n, hn, hne⟩ | ⟨hstopped, hidle, hjoinable⟩
  · exact .inl ⟨n, mem_left_step hstep hn, hne⟩
  · cases e with
    | start created =>
      simp only [step, Option.ite_none_right_eq_some, Option.some.injEq] at hstep
      have hthreads : s.threads.isEmpty = false := by
        cases hthreads : s.threads with
        | nil =>
          unfold Pool.joinable at hjoinable
          rw [hthreads] at hjoinable
          exact absurd rfl hjoinable
        | cons thread threads => rfl
      rw [← hstep.2, Pool.start, hthreads]
      exact .inr ⟨hstopped, hidle, hjoinable⟩
    | stop =>
      simp only [step, Option.ite_none_right_eq_some, Option.some.injEq] at hstep
      rw [← hstep.2]
      exact .stop hstopped hjoinable false
    | destroy =>
      simp only [step, Option.ite_none_right_eq_some, Option.some.injEq] at hstep
      rw [← hstep.2]
      exact .stop hstopped hjoinable true
    | finish i thrown =>
      simp only [step, stepFinish, Option.ite_none_right_eq_some, Option.some.injEq] at hstep
      obtain ⟨⟨hrunning, -⟩, ht⟩ := hstep
      refine .inr ?_
      rw [← ht, joinable_finish hrunning]
      exact ⟨hstopped, hidle, hjoinable⟩
    | join =>
      simp only [step, hidle] at hstep
      cases hstep

/-- **A thread that is created in a pool that is stopped** is never joined. -/
theorem doomed_of_late_start (hstep : step s e = some t) (hlate : ¬ StartsInTime s e) :
    t.Doomed := by
  cases e with
  | start created =>
    simp only [step, Option.ite_none_right_eq_some, Option.some.injEq] at hstep
    obtain ⟨⟨hidle, -⟩, ht⟩ := hstep
    simp only [StartsInTime, Classical.not_imp] at hlate
    obtain ⟨hstopped, hcreated⟩ := hlate
    unfold Pool.start at hcreated ht
    split at hcreated
    · rename_i hempty
      have hnil : s.threads = [] := List.isEmpty_iff.mp hempty
      rw [if_pos hempty] at ht
      rw [← ht]
      refine .inr ⟨hstopped, hidle, ?_⟩
      show (List.replicate created Thread.running).countP Thread.joinable ≠ 0
      intro hzero
      rw [List.countP_replicate] at hzero
      simp only [Thread.joinable, if_true] at hzero
      refine hcreated ?_
      show List.replicate created Thread.running = s.threads
      rw [hzero, hnil]
      rfl
    · exact absurd rfl hcreated
  | stop => exact absurd trivial hlate
  | destroy => exact absurd trivial hlate
  | finish i thrown => exact absurd trivial hlate
  | join => exact absurd trivial hlate

/-- **No thread is left exactly if no thread is started too late**: in a run in which no
`start` creates a thread while the context is stopped, every `stop` has joined all threads
and the destructor destroys none that could be joined. In a run that ends with the
destructor this is the only way. -/
theorem tidy_iff_starts_in_time {numThreads : Nat} {es : List Event} {s : Pool}
    (hr : (machine numThreads).run (machine numThreads).init es = some s) :
    ((machine numThreads).EachStep StartsInTime (machine numThreads).init es → s.Tidy) ∧
      (s.Ended →
        (s.Tidy ↔ (machine numThreads).EachStep StartsInTime (machine numThreads).init es)) := by
  have htidy : (machine numThreads).EachStep StartsInTime (machine numThreads).init es →
      s.Tidy := by
    intro htime
    have hinv : s.Inv := Machine.run_invariant_of_eachStep (I := Pool.Inv)
      (fun _ _ _ hinv htime hstep => inv_step hinv htime hstep) htime (inv_init numThreads) hr
    exact ⟨hinv.left, hinv.terminated⟩
  refine ⟨htidy, fun hended => ⟨?_, htidy⟩⟩
  intro hs
  by_contra hnot
  have hdoomed : s.Doomed := Machine.of_not_eachStep (D := Pool.Doomed)
    (fun _ _ _ hdoomed hstep => doomed_step hdoomed hstep)
    (fun _ _ _ hstep hlate => doomed_of_late_start hstep hlate) hr hnot
  rcases hdoomed with ⟨n, hn, hne⟩ | ⟨-, hidle, -⟩
  · exact hne (hs.1 n hn)
  · rcases hended with hcaller | hcaller
    · cases hidle.symm.trans hcaller
    · cases hidle.symm.trans hcaller

/-- Two threads, one of which has ended early, are joined by `stop`. -/
def joinedBoth : List Event :=
  [.start 2, .finish 0 true, .stop, .join, .finish 1 false, .join, .join, .destroy]

theorem tidy_iff_starts_in_time_joinedBoth :
    ∃ s, (machine 2).run (machine 2).init joinedBoth = some s ∧ s.Ended ∧ s.Tidy ∧
      (machine 2).EachStep StartsInTime (machine 2).init joinedBoth := by
  have hr : (machine 2).run (machine 2).init joinedBoth =
      some { numThreads := 2, stopped := true, caller := .destroyed, left := [0, 0] } := by decide
  have htidy : ({ numThreads := 2, stopped := true, caller := .destroyed, left := [0, 0] } :
      Pool).Tidy := ⟨by decide, by decide⟩
  exact ⟨_, hr, .inl rfl, htidy, ((tidy_iff_starts_in_time hr).2 (.inl rfl)).mp htidy⟩

/-- The pool is stopped, started again, stopped and destroyed. -/
def restarted : List Event := [.stop, .join, .start 1, .finish 0 false, .stop, .destroy]

/-- **The second `stop` leaves the thread**, and the destructor ends in `std::terminate`. -/
theorem restarted_pool_terminates :
    ∃ s, (machine 1).run (machine 1).init restarted = some s ∧ s.left = [0, 1, 1] ∧
      s.caller = .terminated ∧ ¬ s.Tidy := by
  have hr : (machine 1).run (machine 1).init restarted =
      some { numThreads := 1, stopped := true, threads := [.finished], caller := .terminated,
             left := [0, 1, 1] } := by decide
  exact ⟨_, hr, rfl, rfl, fun htidy => htidy.2 rfl⟩

end ThreadPool

end MpRpc
