import Mathlib
import MpRpc.Transport.WriteQueue

/-!
# Writing — the write queue delivers, as long as no write fails

While every write succeeds, the messages whose tasks have run fall into those
that are finished and those in the queue, and the first of the queue is the one
being written: `Flow` says so, and what the bytes on the socket are. The states
in which a write has just ended are `Settled`; both ways to start a write lead
from a settled state to a flowing one. A completion with an error leaves its
message in the queue with no write outstanding, and then no write is ever
started again.
-/

namespace MpRpc.Transport

variable {C : Type*} {Z : StreamingCompressor C}

theorem StreamingCompressor.compressAll_append (c : C) (xs ys : List MessageData) :
    Z.compressAll c (xs ++ ys) =
      ((Z.compressAll c xs).1 ++ (Z.compressAll (Z.compressAll c xs).2 ys).1,
        (Z.compressAll (Z.compressAll c xs).2 ys).2) := by
  induction xs generalizing c with
  | nil => rfl
  | cons x xs ih => simp [compressAll, ih]

namespace WriteQueue

variable {s t : WriteQueue C} {finished : List (Nat × MessageData)}

/-- No write is outstanding, and the socket got what the finished messages
compress to. -/
structure Settled (Z : StreamingCompressor C) (s : WriteQueue C)
    (finished : List (Nat × MessageData)) : Prop where
  ran : s.ran = finished ++ s.writingQueue
  handled : s.handled = finished.map fun p => (p.1, {})
  outstanding : s.outstanding = []
  stream : (s.wire, s.compressor) = Z.compressAll Z.init (finished.map Prod.snd)

/-- The front of the queue, if there is one, is being written. -/
structure Flow (Z : StreamingCompressor C) (s : WriteQueue C)
    (finished : List (Nat × MessageData)) : Prop where
  ran : s.ran = finished ++ s.writingQueue
  handled : s.handled = finished.map fun p => (p.1, {})
  outstanding : s.outstanding.length = (s.writingQueue.take 1).length
  stream : (s.wire ++ s.outstanding.flatten, s.compressor) =
    Z.compressAll Z.init ((finished ++ s.writingQueue.take 1).map Prod.snd)
  written : (Z.compressAll Z.init (finished.map Prod.snd)).1 <+: s.wire

theorem settled_init (Z : StreamingCompressor C) : Settled Z { compressor := Z.init } [] :=
  ⟨rfl, rfl, rfl, rfl⟩

/-- Nothing is written while the queue is empty. -/
theorem Settled.flow (h : s.Settled Z finished) (hq : s.writingQueue = []) :
    s.Flow Z finished where
  ran := h.ran
  handled := h.handled
  outstanding := by rw [h.outstanding, hq]; rfl
  stream := by
    rw [h.outstanding, hq, List.take_nil, List.append_nil, ← h.stream, List.flatten_nil,
      List.append_nil]
  written := by rw [← h.stream]

theorem Flow.settled (h : s.Flow Z finished) (hq : s.writingQueue = []) :
    s.Settled Z finished := by
  have hout : s.outstanding = [] := by
    apply List.eq_nil_of_length_eq_zero
    rw [h.outstanding, hq]
    rfl
  have hstream := h.stream
  rw [hout, hq, List.take_nil, List.append_nil, List.flatten_nil, List.append_nil] at hstream
  exact ⟨h.ran, h.handled, hout, hstream⟩

/-- **Starting a write.** -/
theorem Settled.doWrite (h : s.Settled Z finished) (hq : s.writingQueue ≠ []) :
    (s.doWrite Z).Flow Z finished := by
  obtain ⟨p, rest, hp⟩ := List.exists_cons_of_ne_nil hq
  have hwire : s.wire = (Z.compressAll Z.init (finished.map Prod.snd)).1 :=
    congrArg Prod.fst h.stream
  have hcomp : s.compressor = (Z.compressAll Z.init (finished.map Prod.snd)).2 :=
    congrArg Prod.snd h.stream
  have hdo : s.doWrite Z =
      { s with
        compressor := (Z.compress s.compressor p.2).2
        outstanding := s.outstanding ++ [(Z.compress s.compressor p.2).1] } := by
    simp [WriteQueue.doWrite, hp]
  rw [hdo]
  refine ⟨h.ran, h.handled, ?_, ?_, ?_⟩
  · simp [h.outstanding, hp]
  · simp [h.outstanding, hp, StreamingCompressor.compressAll_append,
      StreamingCompressor.compressAll, ← hwire, ← hcomp]
  · show (Z.compressAll Z.init (finished.map Prod.snd)).1 <+: s.wire
    rw [hwire]

/-- The one outstanding write is that of the front of the queue. -/
theorem Flow.outstanding_eq (h : s.Flow Z finished) {i : Nat} {bytes : Bytes}
    (hi : s.outstanding[i]? = some bytes) : i = 0 ∧ s.outstanding = [bytes] := by
  have hlen := h.outstanding
  have hle := List.length_take_le 1 s.writingQueue
  have hlt := (List.getElem?_eq_some_iff.mp hi).1
  have hzero : i = 0 := by omega
  have hone : s.outstanding.length = 1 := by omega
  obtain ⟨b, hb⟩ := List.length_eq_one_iff.mp hone
  subst hzero
  rw [hb] at hi
  cases hi
  exact ⟨rfl, hb⟩

/-! ## One step -/

theorem Flow.addMessageToWrite (h : s.Flow Z finished) (entry : Nat × MessageData) :
    (s.addMessageToWrite Z entry).Flow Z finished := by
  have hran : s.ran ++ [entry] = finished ++ (s.writingQueue ++ [entry]) := by
    rw [h.ran, List.append_assoc]
  by_cases hq : s.writingQueue = []
  · have hset := h.settled hq
    have hadd : s.addMessageToWrite Z entry =
        WriteQueue.doWrite Z
          { s with writingQueue := s.writingQueue ++ [entry], ran := s.ran ++ [entry] } := by
      simp [WriteQueue.addMessageToWrite, hq]
    rw [hadd]
    apply Settled.doWrite
    · exact ⟨hran, hset.handled, hset.outstanding, hset.stream⟩
    · simp
  · obtain ⟨p, rest, hp⟩ := List.exists_cons_of_ne_nil hq
    have htake : (s.writingQueue ++ [entry]).take 1 = s.writingQueue.take 1 := by
      simp [hp]
    have hadd : s.addMessageToWrite Z entry =
        { s with writingQueue := s.writingQueue ++ [entry], ran := s.ran ++ [entry] } := by
      simp [WriteQueue.addMessageToWrite, hp]
    rw [hadd]
    exact ⟨hran, h.handled, htake ▸ h.outstanding, htake ▸ h.stream, h.written⟩

theorem Flow.transfer (h : s.Flow Z finished) {i : Nat} {bytes : Bytes} (n : Nat)
    (hi : s.outstanding[i]? = some bytes) :
    Flow Z
      { s with
        wire := s.wire ++ bytes.take n
        outstanding := s.outstanding.set i (bytes.drop n) } finished := by
  obtain ⟨rfl, hout⟩ := h.outstanding_eq hi
  have hstream := h.stream
  refine ⟨h.ran, h.handled, ?_, ?_, ?_⟩
  · rw [List.length_set]
    exact h.outstanding
  · rw [hout] at hstream ⊢
    simpa using hstream
  · exact h.written.trans (List.prefix_append _ _)

/-- **A write succeeds**: its message is finished, and the next one is written. -/
theorem Flow.written_front (h : s.Flow Z finished) {i : Nat} {entry : Nat × MessageData}
    {rest : List (Nat × MessageData)} (hi : s.outstanding[i]? = some [])
    (hq : s.writingQueue = entry :: rest) :
    Flow Z (WriteQueue.onWrite Z { s with outstanding := s.outstanding.eraseIdx i } entry rest
      .success) (finished ++ [entry]) := by
  obtain ⟨rfl, hout⟩ := h.outstanding_eq hi
  have hstream := h.stream
  rw [hout, hq] at hstream
  have hset : Settled Z
      { s with
        outstanding := s.outstanding.eraseIdx 0
        handled := s.handled ++ [(entry.1, ({} : ErrorInfo))]
        writingQueue := rest } (finished ++ [entry]) := by
    refine ⟨?_, ?_, ?_, ?_⟩
    · show s.ran = _
      rw [h.ran, hq, List.append_assoc]
      rfl
    · show s.handled ++ _ = _
      rw [h.handled, List.map_append]
      rfl
    · show s.outstanding.eraseIdx 0 = []
      rw [hout]
      rfl
    · simpa using hstream
  cases rest with
  | nil => exact hset.flow rfl
  | cons q rest => exact hset.doWrite (List.cons_ne_nil q rest)

/-- **Step lemma**: a step whose write does not fail keeps the queue flowing. -/
theorem Flow.step (h : s.Flow Z finished) {e : Event} (he : e.Succeeds)
    (hs : WriteQueue.step Z s e = some t) : ∃ finished, t.Flow Z finished := by
  cases e with
  | asyncWrite data =>
    cases hs
    exact ⟨finished, h.ran, h.handled, h.outstanding, h.stream, h.written⟩
  | runTask i =>
    simp only [WriteQueue.step] at hs
    split at hs
    · cases hs
    · rename_i entry hentry
      cases hs
      have hpost : Flow Z { s with posted := s.posted.eraseIdx i } finished :=
        ⟨h.ran, h.handled, h.outstanding, h.stream, h.written⟩
      exact ⟨finished, hpost.addMessageToWrite entry⟩
  | transfer i n =>
    simp only [WriteQueue.step] at hs
    split at hs
    · cases hs
    · rename_i bytes hbytes
      cases hs
      exact ⟨finished, h.transfer n hbytes⟩
  | writeDone i result =>
    have hres : result = .success := he
    subst hres
    simp only [WriteQueue.step] at hs
    split at hs
    · rename_i bytes entry rest hbytes hq
      split at hs
      · cases hs
      · rename_i hnil
        cases hs
        have hbnil : bytes = [] := by simpa using hnil
        subst hbnil
        exact ⟨finished ++ [entry], h.written_front hbytes hq⟩
    · cases hs

/-! ## The numbers of the calls -/

/-- Every `async_write` call has one task, which waits or has run. -/
def Numbered (s : WriteQueue C) : Prop :=
  ((s.posted ++ s.ran).map Prod.fst).Perm (List.range s.calls)

theorem ran_doWrite (s : WriteQueue C) :
    (s.doWrite Z).ran = s.ran ∧ (s.doWrite Z).posted = s.posted ∧
      (s.doWrite Z).calls = s.calls := by
  unfold doWrite
  split <;> exact ⟨rfl, rfl, rfl⟩

theorem ran_addMessageToWrite (s : WriteQueue C) (entry : Nat × MessageData) :
    (s.addMessageToWrite Z entry).ran = s.ran ++ [entry] ∧
      (s.addMessageToWrite Z entry).posted = s.posted ∧
      (s.addMessageToWrite Z entry).calls = s.calls := by
  simp only [addMessageToWrite]
  split
  · exact ran_doWrite _
  · exact ⟨rfl, rfl, rfl⟩

theorem ran_onWrite (s : WriteQueue C) (entry : Nat × MessageData)
    (rest : List (Nat × MessageData)) (result : WriteResult) :
    (s.onWrite Z entry rest result).ran = s.ran ∧
      (s.onWrite Z entry rest result).posted = s.posted ∧
      (s.onWrite Z entry rest result).calls = s.calls := by
  cases result with
  | operationAborted => exact ⟨rfl, rfl, rfl⟩
  | failed message => exact ⟨rfl, rfl, rfl⟩
  | success =>
    simp only [onWrite]
    split
    · exact ⟨rfl, rfl, rfl⟩
    · exact ran_doWrite _

theorem Numbered.step (h : s.Numbered) {e : Event} (hs : WriteQueue.step Z s e = some t) :
    t.Numbered := by
  unfold Numbered at h ⊢
  cases e with
  | asyncWrite data =>
    cases hs
    show ((s.posted ++ [(s.calls, data)] ++ s.ran).map Prod.fst).Perm (List.range (s.calls + 1))
    have hperm : (s.posted ++ [(s.calls, data)] ++ s.ran).Perm
        (s.posted ++ s.ran ++ [(s.calls, data)]) := by
      rw [List.append_assoc, List.append_assoc]
      exact List.perm_append_comm.append_left _
    rw [List.range_succ]
    exact (hperm.map Prod.fst).trans (by simpa using h.append_right [s.calls])
  | runTask i =>
    simp only [WriteQueue.step] at hs
    split at hs
    · cases hs
    · rename_i entry hentry
      cases hs
      obtain ⟨hran, hposted, hcalls⟩ := ran_addMessageToWrite (Z := Z)
        { s with posted := s.posted.eraseIdx i } entry
      rw [hran, hposted, hcalls]
      have hperm := perm_cons_eraseIdx hentry
      have hall : (s.posted.eraseIdx i ++ (s.ran ++ [entry])).Perm (s.posted ++ s.ran) := by
        rw [← List.append_assoc]
        exact (List.perm_append_singleton entry _).trans (hperm.append_right s.ran)
      exact (hall.map Prod.fst).trans h
  | transfer i n =>
    simp only [WriteQueue.step] at hs
    split at hs
    · cases hs
    · cases hs
      exact h
  | writeDone i result =>
    simp only [WriteQueue.step] at hs
    split at hs
    · rename_i entry rest _ _
      split at hs
      · cases hs
      · cases hs
        obtain ⟨hran, hposted, hcalls⟩ := ran_onWrite (Z := Z)
          { s with outstanding := s.outstanding.eraseIdx i } entry rest result
        rw [hran, hposted, hcalls]
        exact h
    · cases hs

/-! ## Runs in which every write succeeds -/

/-- What is on the socket, and which handlers have been called, in a run in which
every write succeeds. -/
structure Delivering (Z : StreamingCompressor C) (s : WriteQueue C) : Prop where
  atMostOne : s.outstanding.length ≤ 1
  outstanding : s.outstanding ≠ [] ↔ s.writingQueue ≠ []
  /-- The bytes on the socket are those of the messages in the order of their
  tasks, as far as they have come. -/
  stream : s.wire <+: (Z.compressAll Z.init (s.ran.map Prod.snd)).1
  whole : s.writingQueue = [] → s.wire = (Z.compressAll Z.init (s.ran.map Prod.snd)).1
  /-- The handlers called are those of the messages before the queue, without an
  error, and everything these messages compress to is on the socket. -/
  handled : ∃ finished, s.ran = finished ++ s.writingQueue ∧
    s.handled = finished.map (fun p => (p.1, {})) ∧
    (Z.compressAll Z.init (finished.map Prod.snd)).1 <+: s.wire
  /-- No handler is called twice. -/
  once : (s.handled.map Prod.fst).Nodup
  /-- When nothing waits any more, the handler of every call has been called. -/
  everyone : s.posted = [] → s.outstanding = [] →
    s.handled.Perm ((List.range s.calls).map fun n => (n, {}))

theorem Flow.outstanding_ne_nil (h : s.Flow Z finished) :
    s.outstanding ≠ [] ↔ s.writingQueue ≠ [] := by
  rw [← List.length_pos_iff, h.outstanding, ← List.length_pos_iff, List.length_take]
  omega

theorem Flow.stream_prefix (h : s.Flow Z finished) :
    s.wire <+: (Z.compressAll Z.init (s.ran.map Prod.snd)).1 := by
  have hstream : s.wire ++ s.outstanding.flatten = _ := congrArg Prod.fst h.stream
  have hsplit : s.ran = (finished ++ s.writingQueue.take 1) ++ s.writingQueue.drop 1 := by
    rw [List.append_assoc, List.take_append_drop, h.ran]
  rw [hsplit, List.map_append, StreamingCompressor.compressAll_append, ← hstream]
  exact (List.prefix_append _ _).trans (List.prefix_append _ _)

theorem Flow.finished_nodup (h : s.Flow Z finished) (hn : s.Numbered) :
    (finished.map Prod.fst).Nodup := by
  have hall : ((s.posted ++ s.ran).map Prod.fst).Nodup := hn.nodup_iff.mpr List.nodup_range
  have hsub : finished.Sublist (s.posted ++ s.ran) := by
    rw [h.ran]
    exact (List.sublist_append_left _ _).trans (List.sublist_append_right _ _)
  exact List.Nodup.sublist (hsub.map Prod.fst) hall

theorem Flow.delivering (h : s.Flow Z finished) (hn : s.Numbered) : s.Delivering Z where
  atMostOne := by
    rw [h.outstanding]
    exact List.length_take_le 1 _
  outstanding := h.outstanding_ne_nil
  stream := h.stream_prefix
  whole hq := by
    have hset := h.settled hq
    rw [hset.ran, hq, List.append_nil, ← hset.stream]
  handled := ⟨finished, h.ran, h.handled, h.written⟩
  once := by
    rw [h.handled, List.map_map]
    exact h.finished_nodup hn
  everyone hposted hout := by
    have hq : s.writingQueue = [] := by
      by_contra hne
      exact h.outstanding_ne_nil.mpr hne hout
    unfold Numbered at hn
    rw [hposted, List.nil_append, h.ran, hq, List.append_nil] at hn
    rw [h.handled]
    simpa [Function.comp_def] using hn.map fun n => (n, ({} : ErrorInfo))

/-- The invariant of the runs in which every write succeeds. -/
structure Steady (Z : StreamingCompressor C) (s : WriteQueue C) : Prop where
  flow : ∃ finished, s.Flow Z finished
  numbered : s.Numbered

theorem steady_init (Z : StreamingCompressor C) : (machine Z).init.Steady Z :=
  ⟨⟨[], (settled_init Z).flow rfl⟩, List.Perm.refl _⟩

theorem Steady.step (h : s.Steady Z) {e : Event} (he : e.Succeeds)
    (hs : WriteQueue.step Z s e = some t) : t.Steady Z := by
  obtain ⟨finished, hflow⟩ := h.flow
  exact ⟨hflow.step he hs, h.numbered.step hs⟩

/-- **Delivery**: in every run in which no write fails, whatever the order of
calls, tasks and completions, at most one write is outstanding, one exactly while
the queue is not empty, the socket gets the compressed messages in the order of
their tasks, and every handler is called once, without an error, when its message
is on the socket. -/
theorem delivering_of_succeeds {es : List Event} (hok : ∀ e ∈ es, e.Succeeds)
    (hr : (machine Z).run (machine Z).init es = some s) : s.Delivering Z := by
  have hsteady : s.Steady Z :=
    Machine.run_invariant_of_forall (I := Steady Z) (fun _ _ _ h he ht => h.step he ht) hok
      (steady_init Z) hr
  obtain ⟨finished, hflow⟩ := hsteady.flow
  exact hflow.delivering hsteady.numbered

/-- A second message is queued while the first is half written. -/
def overlapping : List Event :=
  [.asyncWrite [0x91, 0xc0], .runTask 0, .transfer 0 1, .asyncWrite [0xc3], .runTask 0,
    .transfer 0 1, .writeDone 0 .success, .transfer 0 1, .writeDone 0 .success]

theorem delivering_of_succeeds_overlapping :
    ∃ s, (machine nullStreamingCompressor).run (machine nullStreamingCompressor).init
        overlapping = some s ∧
      s.wire = [0x91, 0xc0, 0xc3] ∧ s.handled = [(0, {}), (1, {})] ∧
      s.Delivering nullStreamingCompressor := by
  have hall : ∀ s, (machine nullStreamingCompressor).run (machine nullStreamingCompressor).init
      overlapping = some s → s.Delivering nullStreamingCompressor := by
    intro s hs
    exact delivering_of_succeeds (by decide) hs
  exact ⟨_, rfl, rfl, rfl, hall _ rfl⟩

/-! ## Runs with failing writes -/

/-- A message in the queue is being written, so that every handler is called in
the end. -/
structure Unstuck (s : WriteQueue C) : Prop where
  outstanding : s.writingQueue ≠ [] → s.outstanding ≠ []
  everyone : s.posted = [] → s.outstanding = [] →
    (s.handled.map Prod.fst).Perm (List.range s.calls)

theorem Flow.unstuck (h : s.Flow Z finished) (hn : s.Numbered) : s.Unstuck where
  outstanding := h.outstanding_ne_nil.mpr
  everyone hposted hout := by
    simpa [Function.comp_def] using ((h.delivering hn).everyone hposted hout).map Prod.fst

/-- **A completion with an error** leaves its message in the queue and no write
outstanding. -/
theorem Flow.stuck (h : s.Flow Z finished) {e : Event} (he : ¬ e.Succeeds)
    (hs : WriteQueue.step Z s e = some t) : t.writingQueue ≠ [] ∧ t.outstanding = [] := by
  cases e with
  | asyncWrite data => exact absurd trivial he
  | runTask i => exact absurd trivial he
  | transfer i n => exact absurd trivial he
  | writeDone i result =>
    simp only [WriteQueue.step] at hs
    split at hs
    · rename_i bytes entry rest hbytes hq
      obtain ⟨rfl, hout⟩ := h.outstanding_eq hbytes
      split at hs
      · cases hs
      · cases hs
        cases result with
        | success => exact absurd rfl he
        | operationAborted => exact ⟨by simp [onWrite, hq], by simp [onWrite, hout]⟩
        | failed message => exact ⟨by simp [onWrite, hq], by simp [onWrite, hout]⟩
    · cases hs

/-- **When the queue never gets stuck**: in a run, a message in the queue always
has a write outstanding exactly if no write of the run completes with an error. -/
theorem unstuck_iff_succeeds {es : List Event}
    (hr : (machine Z).run (machine Z).init es = some s) :
    (machine Z).EachState Unstuck (machine Z).init es ↔ ∀ e ∈ es, e.Succeeds := by
  rw [← Machine.eachStep_iff_forall hr]
  apply Machine.eachState_iff_eachStep_of_guard (G := Steady Z) ?_ ?_ ?_ (steady_init Z) hr
  · intro s hs
    obtain ⟨finished, hflow⟩ := hs.flow
    exact hflow.unstuck hs.numbered
  · intro s e t hs ht he
    exact hs.step he ht
  · intro s e t hs ht he hun
    obtain ⟨finished, hflow⟩ := hs.flow
    obtain ⟨hq, hout⟩ := hflow.stuck he ht
    exact hun.outstanding hq hout

/-- Two messages are queued, and the write of the first one fails. -/
def brokenPipe : List Event :=
  [.asyncWrite [0xc0], .asyncWrite [0xc3], .runTask 0, .runTask 0,
    .writeDone 0 (.failed "Broken pipe")]

theorem unstuck_iff_succeeds_brokenPipe :
    (machine nullStreamingCompressor).EachState Unstuck (machine nullStreamingCompressor).init
      brokenPipe ↔ ∀ e ∈ brokenPipe, e.Succeeds := by
  have hall : ∀ s, (machine nullStreamingCompressor).run (machine nullStreamingCompressor).init
      brokenPipe = some s →
      ((machine nullStreamingCompressor).EachState Unstuck
        (machine nullStreamingCompressor).init brokenPipe ↔ ∀ e ∈ brokenPipe, e.Succeeds) :=
    fun s hs => unstuck_iff_succeeds hs
  exact hall _ rfl

/-- After the failed write both messages are in the queue, no write is
outstanding, nothing waits on the strand, and the handler of the second message
has not been called. -/
theorem failed_write_stops_queue :
    ∃ s, (machine nullStreamingCompressor).run (machine nullStreamingCompressor).init
        brokenPipe = some s ∧
      s.writingQueue = [(0, [0xc0]), (1, [0xc3])] ∧ s.outstanding = [] ∧ s.posted = [] ∧
      s.handled = [(0, .of .failedToWrite "Broken pipe")] ∧ ¬ s.Unstuck := by
  refine ⟨_, rfl, rfl, rfl, rfl, rfl, ?_⟩
  intro hun
  exact hun.outstanding (List.cons_ne_nil _ _) rfl

end WriteQueue

end MpRpc.Transport
