import MpRpc.Transport.Writing

/-!
# WriteSafety — what is on the socket, also when writes fail

A write that fails stops the queue for good, with its own message in front. So in every
run the socket has got the messages in the order of their tasks, up to a point in one of
them, and each message whose handler was told of success completely. `begun` are the
messages that have been compressed; all but the last of them are written.
-/

namespace MpRpc.Transport.WriteQueue

variable {C : Type*} {Z : StreamingCompressor C} {s t : WriteQueue C}
  {finished : List (Nat × MessageData)}

/-- The calls of handlers after the successful ones: at most one, of the message in front,
with an error. -/
def Failures (queue : List (Nat × MessageData)) (failures : List (Nat × ErrorInfo)) : Prop :=
  failures = [] ∨ ∃ entry rest error, queue = entry :: rest ∧ error.hasError = true ∧
    failures = [(entry.1, error)]

/-- A write has failed: its message stays in front and nothing is written any more. -/
structure Stopped (Z : StreamingCompressor C) (s : WriteQueue C)
    (finished : List (Nat × MessageData)) : Prop where
  ran : s.ran = finished ++ s.writingQueue
  queue : s.writingQueue ≠ []
  outstanding : s.outstanding = []
  handled : ∃ failures, s.handled = finished.map (fun p => (p.1, ({} : ErrorInfo))) ++ failures ∧
    Failures s.writingQueue failures
  written : (Z.compressAll Z.init (finished.map Prod.snd)).1 <+: s.wire
  stream : s.wire <+: (Z.compressAll Z.init ((finished ++ s.writingQueue.take 1).map Prod.snd)).1

/-- **A write fails.** -/
theorem Flow.stopped (h : s.Flow Z finished) {i : Nat} {result : WriteResult}
    (hresult : result ≠ .success) (hs : WriteQueue.step Z s (.writeDone i result) = some t) :
    t.Stopped Z finished := by
  have hstream : s.wire ++ s.outstanding.flatten = _ := congrArg Prod.fst h.stream
  have hwire : s.wire <+: (Z.compressAll Z.init
      ((finished ++ s.writingQueue.take 1).map Prod.snd)).1 := by
    rw [← hstream]
    exact List.prefix_append _ _
  simp only [WriteQueue.step] at hs
  split at hs
  · rename_i bytes entry rest hbytes hq
    obtain ⟨rfl, hout⟩ := h.outstanding_eq hbytes
    rw [if_neg (fun hand => hresult hand.1)] at hs
    cases hs
    have hnone : s.outstanding.eraseIdx 0 = [] := by
      rw [hout]
      rfl
    have hne : s.writingQueue ≠ [] := by
      rw [hq]
      exact List.cons_ne_nil entry rest
    cases result with
    | success => exact absurd rfl hresult
    | operationAborted =>
      refine ⟨h.ran, hne, hnone, ⟨[], ?_, .inl rfl⟩, h.written, hwire⟩
      rw [List.append_nil]
      exact h.handled
    | failed message =>
      refine ⟨h.ran, hne, hnone, ⟨[(entry.1, .of .failedToWrite message)], ?_, ?_⟩, h.written,
        hwire⟩
      · show s.handled ++ _ = _
        rw [h.handled]
      · exact .inr ⟨entry, rest, _, hq, rfl, rfl⟩
  · cases hs

/-- **A stopped queue stays stopped.** -/
theorem Stopped.step (h : s.Stopped Z finished) {e : Event}
    (hs : WriteQueue.step Z s e = some t) : t.Stopped Z finished := by
  cases e with
  | asyncWrite data =>
    cases hs
    exact ⟨h.ran, h.queue, h.outstanding, h.handled, h.written, h.stream⟩
  | runTask i =>
    simp only [WriteQueue.step] at hs
    split at hs
    · cases hs
    · rename_i entry hentry
      cases hs
      obtain ⟨front, rest, hq⟩ := List.exists_cons_of_ne_nil h.queue
      obtain ⟨failures, hhandled, hfailures⟩ := h.handled
      have hadd : WriteQueue.addMessageToWrite Z { s with posted := s.posted.eraseIdx i } entry =
          { s with
            posted := s.posted.eraseIdx i
            writingQueue := s.writingQueue ++ [entry]
            ran := s.ran ++ [entry] } := by
        simp [WriteQueue.addMessageToWrite, hq]
      have htake : (s.writingQueue ++ [entry]).take 1 = s.writingQueue.take 1 := by
        simp [hq]
      rw [hadd]
      refine ⟨?_, by simp, h.outstanding, ⟨failures, hhandled, ?_⟩, h.written, ?_⟩
      · show s.ran ++ [entry] = finished ++ (s.writingQueue ++ [entry])
        rw [h.ran, List.append_assoc]
      · rcases hfailures with rfl | ⟨front', rest', error, hq', herror, rfl⟩
        · exact .inl rfl
        · exact .inr ⟨front', rest' ++ [entry], error, by simp [hq'], herror, rfl⟩
      · show s.wire <+: _
        rw [htake]
        exact h.stream
  | transfer i n =>
    simp [WriteQueue.step, h.outstanding] at hs
  | writeDone i result =>
    simp [WriteQueue.step, h.outstanding] at hs

/-- In every run the queue flows or is stopped. -/
def FlowsOrStopped (Z : StreamingCompressor C) (s : WriteQueue C)
    (finished : List (Nat × MessageData)) : Prop :=
  s.Flow Z finished ∨ s.Stopped Z finished

theorem FlowsOrStopped.step (h : s.FlowsOrStopped Z finished) {e : Event}
    (hs : WriteQueue.step Z s e = some t) : ∃ finished, t.FlowsOrStopped Z finished := by
  rcases h with hflow | hstopped
  · by_cases he : e.Succeeds
    · obtain ⟨finished', hflow'⟩ := hflow.step he hs
      exact ⟨finished', .inl hflow'⟩
    · cases e with
      | asyncWrite data => exact absurd trivial he
      | runTask i => exact absurd trivial he
      | transfer i n => exact absurd trivial he
      | writeDone i result => exact ⟨finished, .inr (hflow.stopped he hs)⟩
  · exact ⟨finished, .inr (hstopped.step hs)⟩

/-! ## The messages that have been compressed -/

/-- All messages whose tasks have run, but for those behind the front of the queue. -/
def begun (s : WriteQueue C) : List MessageData :=
  (s.ran.take (s.ran.length - (s.writingQueue.length - 1))).map Prod.snd

theorem begun_eq (h : s.ran = finished ++ s.writingQueue) :
    s.begun = (finished ++ s.writingQueue.take 1).map Prod.snd := by
  have hlength : s.ran.length - (s.writingQueue.length - 1) =
      finished.length + (s.writingQueue.take 1).length := by
    rw [h, List.length_append, List.length_take]
    omega
  rw [begun, hlength, h, List.take_length_add_append]
  congr 2
  rw [List.length_take, List.take_eq_take_iff]
  omega

theorem map_ran (h : s.ran = finished ++ s.writingQueue) :
    s.ran.map Prod.snd = s.begun ++ (s.writingQueue.drop 1).map Prod.snd := by
  rw [begun_eq h, ← List.map_append, List.append_assoc, List.take_append_drop, h]

theorem FlowsOrStopped.ran (h : s.FlowsOrStopped Z finished) :
    s.ran = finished ++ s.writingQueue := by
  rcases h with hflow | hstopped
  · exact hflow.ran
  · exact hstopped.ran

/-- The bytes on the socket come from the messages that have been compressed. -/
theorem FlowsOrStopped.wire (h : s.FlowsOrStopped Z finished) :
    s.wire <+: (Z.compressAll Z.init s.begun).1 := by
  rw [begun_eq h.ran]
  rcases h with hflow | hstopped
  · rw [← hflow.stream]
    exact List.prefix_append _ _
  · exact hstopped.stream

theorem queue_doWrite (s : WriteQueue C) : (s.doWrite Z).writingQueue = s.writingQueue := by
  unfold doWrite
  split <;> rfl

theorem queue_addMessageToWrite (s : WriteQueue C) (entry : Nat × MessageData) :
    (s.addMessageToWrite Z entry).writingQueue = s.writingQueue ++ [entry] := by
  simp only [addMessageToWrite]
  split
  · exact queue_doWrite _
  · rfl

theorem queue_onWrite (s : WriteQueue C) (entry : Nat × MessageData)
    (rest : List (Nat × MessageData)) (result : WriteResult) :
    (s.onWrite Z entry rest result).writingQueue = s.writingQueue ∨
      (s.onWrite Z entry rest result).writingQueue = rest := by
  cases result with
  | operationAborted => exact .inl rfl
  | failed message => exact .inl rfl
  | success =>
    simp only [onWrite]
    split
    · exact .inr rfl
    · exact .inr (queue_doWrite _)

theorem begun_prefix_of {s t : WriteQueue C} (hran : s.ran <+: t.ran)
    (hcount : s.ran.length - (s.writingQueue.length - 1) ≤
      t.ran.length - (t.writingQueue.length - 1)) : s.begun <+: t.begun := by
  obtain ⟨more, hmore⟩ := hran
  refine List.IsPrefix.map Prod.snd ?_
  rw [← hmore] at hcount ⊢
  have htake : s.ran.take (s.ran.length - (s.writingQueue.length - 1)) =
      (s.ran ++ more).take (s.ran.length - (s.writingQueue.length - 1)) :=
    (List.take_append_of_le_length (Nat.sub_le _ _)).symm
  rw [htake]
  exact List.take_prefix_take_left hcount

/-- **Whatever is compressed stays compressed**, and a message is compressed behind those
before it. -/
theorem begun_step {e : Event} (hs : WriteQueue.step Z s e = some t) : s.begun <+: t.begun := by
  cases e with
  | asyncWrite data =>
    cases hs
    exact List.prefix_rfl
  | runTask i =>
    simp only [WriteQueue.step] at hs
    split at hs
    · cases hs
    · rename_i entry hentry
      cases hs
      obtain ⟨hran, -, -⟩ := ran_addMessageToWrite (Z := Z)
        { s with posted := s.posted.eraseIdx i } entry
      have hqueue := queue_addMessageToWrite (Z := Z)
        { s with posted := s.posted.eraseIdx i } entry
      apply begun_prefix_of
      · rw [hran]
        exact List.prefix_append _ _
      · rw [hran, hqueue, List.length_append, List.length_append, List.length_singleton]
        show s.ran.length - (s.writingQueue.length - 1) ≤
          s.ran.length + 1 - (s.writingQueue.length + 1 - 1)
        omega
  | transfer i n =>
    simp only [WriteQueue.step] at hs
    split at hs
    · cases hs
    · cases hs
      exact List.prefix_rfl
  | writeDone i result =>
    simp only [WriteQueue.step] at hs
    split at hs
    · rename_i entry rest _ hq
      split at hs
      · cases hs
      · cases hs
        obtain ⟨hran, -, -⟩ := ran_onWrite (Z := Z)
          { s with outstanding := s.outstanding.eraseIdx i } entry rest result
        apply begun_prefix_of
        · rw [hran]
        · rw [hran]
          rcases queue_onWrite (Z := Z) { s with outstanding := s.outstanding.eraseIdx i } entry
            rest result with hqueue | hqueue
          · rw [hqueue]
          · rw [hqueue, hq, List.length_cons]
            show s.ran.length - (rest.length + 1 - 1) ≤ s.ran.length - (rest.length - 1)
            omega
    · cases hs

/-- Nothing is taken off the socket. -/
theorem wire_step {e : Event} (hs : WriteQueue.step Z s e = some t) : s.wire <+: t.wire := by
  have hdo : ∀ s : WriteQueue C, (s.doWrite Z).wire = s.wire := by
    intro s
    unfold doWrite
    split <;> rfl
  cases e with
  | asyncWrite data =>
    cases hs
    exact List.prefix_rfl
  | runTask i =>
    simp only [WriteQueue.step] at hs
    split at hs
    · cases hs
    · cases hs
      simp only [addMessageToWrite]
      split
      · rw [hdo]
      · exact List.prefix_rfl
  | transfer i n =>
    simp only [WriteQueue.step] at hs
    split at hs
    · cases hs
    · cases hs
      exact List.prefix_append _ _
  | writeDone i result =>
    simp only [WriteQueue.step] at hs
    split at hs
    · split at hs
      · cases hs
      · cases hs
        cases result with
        | operationAborted => exact List.prefix_rfl
        | failed message => exact List.prefix_rfl
        | success =>
          simp only [onWrite]
          split
          · exact List.prefix_rfl
          · rw [hdo]
    · cases hs

/-! ## No message is lost or altered on the way to the socket -/

/-- The messages of the `async_write` calls. -/
def writes (es : List Event) : List MessageData :=
  es.filterMap fun
    | .asyncWrite data => some data
    | _ => none

/-- A step other than `async_write` moves messages, with their numbers. -/
theorem perm_step {e : Event} (he : ∀ data, e ≠ .asyncWrite data)
    (hs : WriteQueue.step Z s e = some t) :
    (t.posted ++ t.ran).Perm (s.posted ++ s.ran) ∧ t.calls = s.calls := by
  cases e with
  | asyncWrite data => exact absurd rfl (he data)
  | runTask i =>
    simp only [WriteQueue.step] at hs
    split at hs
    · cases hs
    · rename_i entry hentry
      cases hs
      obtain ⟨hran, hposted, hcalls⟩ := ran_addMessageToWrite (Z := Z)
        { s with posted := s.posted.eraseIdx i } entry
      rw [hran, hposted, hcalls]
      refine ⟨?_, rfl⟩
      show (s.posted.eraseIdx i ++ (s.ran ++ [entry])).Perm _
      rw [← List.append_assoc]
      exact (List.perm_append_singleton entry _).trans
        ((perm_cons_eraseIdx hentry).append_right s.ran)
  | transfer i n =>
    simp only [WriteQueue.step] at hs
    split at hs
    · cases hs
    · cases hs
      exact ⟨.refl _, rfl⟩
  | writeDone i result =>
    simp only [WriteQueue.step] at hs
    split at hs
    · rename_i entry rest _ _
      split at hs
      · cases hs
      · cases hs
        obtain ⟨hran, hposted, hcalls⟩ := ran_onWrite (Z := Z)
          { s with outstanding := s.outstanding.eraseIdx i } entry rest result
        rw [hran, hposted, hcalls]
        exact ⟨.refl _, rfl⟩
    · cases hs

/-- **Every `async_write` has its message waiting or run**, under the number of the call. -/
theorem perm_run {es : List Event} (hs : (machine Z).run s es = some t) :
    (t.posted ++ t.ran).Perm
      (s.posted ++ s.ran ++ ((writes es).zipIdx s.calls).map Prod.swap) := by
  induction es generalizing s with
  | nil =>
    cases hs
    simp [writes]
  | cons e es ih =>
    obtain ⟨u, hu, hs⟩ := (Machine.run_cons _).mp hs
    have hstep : WriteQueue.step Z s e = some u := hu
    refine (ih hs).trans ?_
    cases e with
    | asyncWrite data =>
      cases hstep
      show (s.posted ++ [(s.calls, data)] ++ s.ran ++ _).Perm _
      have hmove : (s.posted ++ [(s.calls, data)] ++ s.ran).Perm
          (s.posted ++ s.ran ++ [(s.calls, data)]) := by
        rw [List.append_assoc, List.append_assoc]
        exact List.perm_append_comm.append_left _
      refine (hmove.append_right _).trans ?_
      rw [List.append_assoc]
      exact .refl _
    | runTask _ | transfer _ _ | writeDone _ _ =>
      obtain ⟨hperm, hcalls⟩ := perm_step (by rintro data ⟨⟩) hstep
      rw [hcalls]
      exact hperm.append_right _

/-! ## Whole runs -/

/-- What holds of the writing half in every run, whatever fails. -/
structure InOrder (Z : StreamingCompressor C) (written : List MessageData) (s : WriteQueue C) :
    Prop where
  /-- The messages that wait for their tasks and those whose tasks have run are those
  that were written, each with the number of its call. -/
  messages : (s.posted ++ s.ran).Perm (written.zipIdx.map Prod.swap)
  /-- The bytes on the socket are those of the messages in the order of their tasks, as
  far as they have come. -/
  stream : s.wire <+: (Z.compressAll Z.init (s.ran.map Prod.snd)).1
  /-- The handlers that were called are those of the messages before the queue, without an
  error and with everything these compress to on the socket, and then at most that of the
  front of the queue, with an error. -/
  handled : ∃ finished failures, s.ran = finished ++ s.writingQueue ∧
    s.handled = finished.map (fun p => (p.1, ({} : ErrorInfo))) ++ failures ∧
    Failures s.writingQueue failures ∧
    (Z.compressAll Z.init (finished.map Prod.snd)).1 <+: s.wire
  /-- No handler is called twice. -/
  once : (s.handled.map Prod.fst).Nodup

theorem FlowsOrStopped.handled (h : s.FlowsOrStopped Z finished) :
    ∃ failures, s.handled = finished.map (fun p => (p.1, ({} : ErrorInfo))) ++ failures ∧
      Failures s.writingQueue failures ∧
      (Z.compressAll Z.init (finished.map Prod.snd)).1 <+: s.wire := by
  rcases h with hflow | hstopped
  · exact ⟨[], by rw [List.append_nil, hflow.handled], .inl rfl, hflow.written⟩
  · obtain ⟨failures, hhandled, hfailures⟩ := hstopped.handled
    exact ⟨failures, hhandled, hfailures, hstopped.written⟩

/-- The numbers of the handlers that were called are those of the first messages. -/
theorem FlowsOrStopped.handled_prefix (h : s.FlowsOrStopped Z finished) :
    s.handled.map Prod.fst <+: s.ran.map Prod.fst := by
  obtain ⟨failures, hhandled, hfailures, -⟩ := h.handled
  rw [hhandled, h.ran, List.map_append, List.map_append, List.map_map]
  refine (List.prefix_append_right_inj _).mpr ?_
  rcases hfailures with rfl | ⟨entry, rest, error, hq, -, rfl⟩
  · exact List.nil_prefix
  · rw [hq]
    exact ⟨rest.map Prod.fst, rfl⟩

/-- **The writing half in every run**: the socket gets the messages in the order of their
tasks and nothing else; a handler is called at most once, and without an error only when
its message is on the socket; after an error no handler is called. -/
theorem inOrder_of_run {es : List Event}
    (hr : (machine Z).run (machine Z).init es = some s) : s.InOrder Z (writes es) := by
  have hinit : (machine Z).init.FlowsOrStopped Z [] := .inl ((settled_init Z).flow rfl)
  obtain ⟨finished, hstate⟩ : ∃ finished, s.FlowsOrStopped Z finished :=
    (machine Z).run_invariant (I := fun s => ∃ finished, s.FlowsOrStopped Z finished)
      (fun _ _ _ h hs => h.elim fun _ h => h.step hs) ⟨[], hinit⟩ hr
  have hmessages : (s.posted ++ s.ran).Perm ((writes es).zipIdx.map Prod.swap) := perm_run hr
  have hnumbers : ((s.posted ++ s.ran).map Prod.fst).Nodup := by
    refine ((hmessages.map Prod.fst).nodup_iff).mpr ?_
    rw [List.map_map]
    show ((writes es).zipIdx.map Prod.snd).Nodup
    rw [List.zipIdx_map_snd]
    exact List.nodup_range'
  obtain ⟨failures, hhandled, hfailures, hwritten⟩ := hstate.handled
  refine ⟨hmessages, ?_, ⟨finished, failures, hstate.ran, hhandled, hfailures, hwritten⟩, ?_⟩
  · refine hstate.wire.trans ?_
    rw [map_ran hstate.ran, StreamingCompressor.compressAll_append]
    exact List.prefix_append _ _
  · refine List.Nodup.sublist (hstate.handled_prefix.sublist.trans ?_) hnumbers
    exact (List.sublist_append_right s.posted s.ran).map Prod.fst

theorem inOrder_of_run_brokenPipe :
    ∃ s, (machine nullStreamingCompressor).run (machine nullStreamingCompressor).init brokenPipe =
        some s ∧ s.handled.length = 1 ∧ s.InOrder nullStreamingCompressor [[0xc0], [0xc3]] := by
  have hrun : ((machine nullStreamingCompressor).run (machine nullStreamingCompressor).init
      brokenPipe).map (fun s => s.handled.length) = some 1 := by
    decide +kernel
  obtain ⟨s, hs, hhandled⟩ := Option.map_eq_some_iff.mp hrun
  exact ⟨s, hs, hhandled, inOrder_of_run hs⟩

end MpRpc.Transport.WriteQueue
