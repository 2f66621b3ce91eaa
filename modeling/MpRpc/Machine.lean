import Mathlib

/-!
# Machine — partial step functions, runs and reachable states

A machine takes one labelled step at a time. An event carries every choice
the environment makes (which task runs, in which order a container is
walked), so a step is a partial function and a run is a list of events.
The rules below package each induction over runs once: an invariant needs
its initial state and its step, a relation between the two ends of a run
needs reflexivity and its step, and a condition on the single steps of a
run is compared with a property of all the states it passes through.
-/

namespace MpRpc

/-- An initial state and a partial step function; `none` says that the
event is not enabled. -/
structure Machine (σ ε : Type*) where
  init : σ
  step : σ → ε → Option σ

namespace Machine

variable {σ ε : Type*} (M : Machine σ ε)

/-- The state after the events `es`, taken in order from `s`. -/
def run (s : σ) : List ε → Option σ
  | [] => some s
  | e :: es => (M.step s e).bind fun t => run t es

/-- Some run leads from the initial state to `s`. -/
def Reachable (s : σ) : Prop :=
  ∃ es, M.run M.init es = some s

@[simp] theorem run_nil (s : σ) : M.run s [] = some s := rfl

theorem run_cons {s u : σ} {e : ε} {es : List ε} :
    M.run s (e :: es) = some u ↔ ∃ t, M.step s e = some t ∧ M.run t es = some u := by
  simp [run, Option.bind_eq_some_iff]

theorem run_append {s u : σ} {es fs : List ε} :
    M.run s (es ++ fs) = some u ↔ ∃ t, M.run s es = some t ∧ M.run t fs = some u := by
  induction es generalizing s with
  | nil => simp
  | cons e es ih =>
    simp only [List.cons_append, run_cons, ih]
    constructor
    · intro hex
      obtain ⟨t, ht, v, hv, hu⟩ := hex
      exact ⟨v, ⟨t, ht, hv⟩, hu⟩
    · intro hex
      obtain ⟨v, ⟨t, ht, hv⟩, hu⟩ := hex
      exact ⟨t, ht, v, hv, hu⟩

variable {M}

theorem Reachable.init : M.Reachable M.init := ⟨[], rfl⟩

theorem Reachable.run {s t : σ} {es : List ε} (h : M.Reachable s)
    (hr : M.run s es = some t) : M.Reachable t := by
  obtain ⟨fs, hf⟩ := h
  exact ⟨fs ++ es, M.run_append.mpr ⟨s, hf, hr⟩⟩

theorem Reachable.step {s t : σ} {e : ε} (h : M.Reachable s)
    (he : M.step s e = some t) : M.Reachable t := by
  have hr : M.run s [e] = some t := M.run_cons.mpr ⟨t, he, rfl⟩
  exact h.run hr

variable (M)

/-- Every step of the run along `es` satisfies `P` in the state before it. -/
def EachStep (P : σ → ε → Prop) (s : σ) : List ε → Prop
  | [] => True
  | e :: es => P s e ∧ ∀ t, M.step s e = some t → EachStep P t es

instance decidableEachStep {P : σ → ε → Prop} [∀ s, DecidablePred (P s)] :
    ∀ (es : List ε) (s : σ), Decidable (M.EachStep P s es)
  | [], _ => .isTrue trivial
  | e :: es, s =>
      have : DecidablePred fun t => M.EachStep P t es := decidableEachStep es
      inferInstanceAs (Decidable (P s e ∧ ∀ t ∈ M.step s e, M.EachStep P t es))

/-- Every state the run along `es` passes through, both ends included,
satisfies `I`. -/
def EachState (I : σ → Prop) (s : σ) : List ε → Prop
  | [] => I s
  | e :: es => I s ∧ ∀ t, M.step s e = some t → EachState I t es

variable {M}

/-- A condition that does not look at the state. -/
theorem eachStep_iff_forall {P : ε → Prop} {s u : σ} {es : List ε}
    (hr : M.run s es = some u) : M.EachStep (fun _ e => P e) s es ↔ ∀ e ∈ es, P e := by
  induction es generalizing s with
  | nil => simp [EachStep]
  | cons e es ih =>
    obtain ⟨t, ht, hr⟩ := M.run_cons.mp hr
    simp only [EachStep, ht, Option.some.injEq, forall_eq', List.forall_mem_cons, ih hr]

theorem EachStep.and {P Q : σ → ε → Prop} {s : σ} {es : List ε} (hP : M.EachStep P s es)
    (hQ : M.EachStep Q s es) : M.EachStep (fun s e => P s e ∧ Q s e) s es := by
  induction es generalizing s with
  | nil => trivial
  | cons e es ih => exact ⟨⟨hP.1, hQ.1⟩, fun t ht => ih (hP.2 t ht) (hQ.2 t ht)⟩

/-- A condition on the steps of a run that is cut in two. -/
theorem eachStep_append {P : σ → ε → Prop} {s t : σ} {es fs : List ε}
    (hr : M.run s es = some t) :
    M.EachStep P s (es ++ fs) ↔ M.EachStep P s es ∧ M.EachStep P t fs := by
  induction es generalizing s with
  | nil =>
    cases hr
    exact (and_iff_right trivial).symm
  | cons e es ih =>
    obtain ⟨u, hu, hr⟩ := M.run_cons.mp hr
    simp only [List.cons_append, EachStep, hu, Option.some.injEq, forall_eq', ih hr, and_assoc]

/-- The steps of a run, one by one. -/
theorem eachStep_iff_forall_split {P : σ → ε → Prop} {s : σ} {es : List ε} :
    M.EachStep P s es ↔ ∀ before e after t, es = before ++ e :: after →
      M.run s before = some t → P t e := by
  induction es generalizing s with
  | nil => simp [EachStep]
  | cons x es ih =>
    constructor
    · rintro ⟨hx, hrest⟩ before e after t hsplit hrun
      cases before with
      | nil =>
        obtain ⟨rfl, rfl⟩ := List.cons.inj hsplit
        cases hrun
        exact hx
      | cons y before =>
        obtain ⟨rfl, htail⟩ := List.cons.inj hsplit
        obtain ⟨u, hu, hrun⟩ := M.run_cons.mp hrun
        exact ih.mp (hrest u hu) before e after t htail hrun
    · intro h
      refine ⟨h [] x es s rfl rfl, ?_⟩
      intro u hu
      refine ih.mpr fun before e after t hsplit hrun => ?_
      exact h (x :: before) e after t (congrArg (x :: ·) hsplit) (M.run_cons.mpr ⟨u, hu, hrun⟩)

/-- **The invariant rule** along one run whose steps all satisfy `P`. -/
theorem run_invariant_of_eachStep {I : σ → Prop} {P : σ → ε → Prop}
    (hstep : ∀ s e t, I s → P s e → M.step s e = some t → I t) {s t : σ} {es : List ε}
    (hP : M.EachStep P s es) (hs : I s) (hr : M.run s es = some t) : I t := by
  induction es generalizing s with
  | nil => cases hr; exact hs
  | cons e es ih =>
    obtain ⟨u, hu, hr⟩ := M.run_cons.mp hr
    exact ih (hP.2 u hu) (hstep s e u hs hP.1 hu) hr

/-- **The invariant rule** along one run whose events all satisfy `P`. -/
theorem run_invariant_of_forall {I : σ → Prop} {P : ε → Prop}
    (hstep : ∀ s e t, I s → P e → M.step s e = some t → I t) {s t : σ} {es : List ε}
    (hP : ∀ e ∈ es, P e) (hs : I s) (hr : M.run s es = some t) : I t :=
  run_invariant_of_eachStep hstep ((eachStep_iff_forall hr).mpr hP) hs hr

/-- **The invariant rule** along one run. -/
theorem run_invariant {I : σ → Prop}
    (hstep : ∀ s e t, I s → M.step s e = some t → I t) {s t : σ} {es : List ε}
    (hs : I s) (hr : M.run s es = some t) : I t :=
  run_invariant_of_forall (P := fun _ => True) (fun s e t hi _ => hstep s e t hi)
    (fun _ _ => trivial) hs hr

/-- **The invariant rule** for reachable states. -/
theorem Reachable.invariant {I : σ → Prop} (hinit : I M.init)
    (hstep : ∀ s e t, I s → M.step s e = some t → I t) {s : σ}
    (h : M.Reachable s) : I s := by
  obtain ⟨es, hr⟩ := h
  exact run_invariant hstep hinit hr

/-- **The relation rule**: what every step relates, every run relates. -/
theorem run_relation {R : σ → σ → Prop} (hrefl : ∀ s, R s s)
    (htrans : ∀ s t u, R s t → R t u → R s u)
    (hstep : ∀ s e t, M.step s e = some t → R s t) {s t : σ} {es : List ε}
    (hr : M.run s es = some t) : R s t := by
  induction es generalizing s with
  | nil => cases hr; exact hrefl _
  | cons e es ih =>
    obtain ⟨u, hu, hr⟩ := M.run_cons.mp hr
    exact htrans s u t (hstep s e u hu) (ih hr)

theorem eachStep_of_forall {P : σ → ε → Prop} (h : ∀ s e, P s e) (s : σ) (es : List ε) :
    M.EachStep P s es := by
  induction es generalizing s with
  | nil => trivial
  | cons e es ih => exact ⟨h s e, fun t _ => ih t⟩

/-- **The simulation rule**: if `f` takes every step of `M` with `P` to a run of `N` whose
steps have `Q` and that spends no more, it takes every such run of `M` to such a run. -/
theorem run_simulation {τ δ : Type*} {N : Machine τ δ} {f : σ → τ} {cost : ε → Nat}
    {spent : δ → Nat} {P : σ → ε → Prop} {Q : τ → δ → Prop}
    (hstep : ∀ s e t, P s e → M.step s e = some t →
      ∃ ds, N.run (f s) ds = some (f t) ∧ N.EachStep Q (f s) ds ∧ (ds.map spent).sum ≤ cost e)
    {s t : σ} {es : List ε} (hP : M.EachStep P s es) (hr : M.run s es = some t) :
    ∃ ds, N.run (f s) ds = some (f t) ∧ N.EachStep Q (f s) ds ∧
      (ds.map spent).sum ≤ (es.map cost).sum := by
  induction es generalizing s with
  | nil =>
    cases hr
    exact ⟨[], rfl, trivial, le_refl _⟩
  | cons e es ih =>
    obtain ⟨u, hu, hr⟩ := M.run_cons.mp hr
    obtain ⟨ds, hds, hQ, hspent⟩ := hstep s e u hP.1 hu
    obtain ⟨ds', hds', hQ', hspent'⟩ := ih (hP.2 u hu) hr
    refine ⟨ds ++ ds', N.run_append.mpr ⟨f u, hds, hds'⟩, (eachStep_append hds).mpr ⟨hQ, hQ'⟩, ?_⟩
    rw [List.map_append, List.sum_append, List.map_cons, List.sum_cons]
    omega

/-- **A step that spoils the rest**: if a step without `P` leads to `D`, and `D` stays, then
`D` holds after a run that has such a step. -/
theorem of_not_eachStep {D : σ → Prop} {P : σ → ε → Prop}
    (hkeep : ∀ s e t, D s → M.step s e = some t → D t)
    (hbad : ∀ s e t, M.step s e = some t → ¬ P s e → D t) {s u : σ} {es : List ε}
    (hr : M.run s es = some u) (hnot : ¬ M.EachStep P s es) : D u := by
  induction es generalizing s with
  | nil => exact absurd trivial hnot
  | cons e es ih =>
    obtain ⟨t, ht, hr⟩ := M.run_cons.mp hr
    by_cases hp : P s e
    · refine ih hr ?_
      intro hrest
      refine hnot ⟨hp, ?_⟩
      intro t' ht'
      cases ht.symm.trans ht'
      exact hrest
    · exact run_invariant hkeep (hbad s e t ht hp) hr

theorem EachState.head {I : σ → Prop} {s : σ} {es : List ε} (h : M.EachState I s es) : I s := by
  cases es with
  | nil => exact h
  | cons e es => exact h.1

/-- Two conditions on steps that agree wherever `J` holds agree along a run. -/
theorem eachStep_congr {J : σ → Prop} {P Q : σ → ε → Prop}
    (hJ : ∀ s e t, J s → M.step s e = some t → J t)
    (hPQ : ∀ s e t, J s → M.step s e = some t → (P s e ↔ Q s e)) {s u : σ} {es : List ε}
    (hs : J s) (hr : M.run s es = some u) : M.EachStep P s es ↔ M.EachStep Q s es := by
  induction es generalizing s with
  | nil => exact Iff.rfl
  | cons e es ih =>
    obtain ⟨t, ht, hr⟩ := M.run_cons.mp hr
    simp only [EachStep, ht, Option.some.injEq, forall_eq']
    exact and_congr (hPQ s e t hs ht) (ih (hJ s e t hs ht) hr)

/-- If a step that satisfies `P` leads to `I`, the states of a run whose steps all satisfy
`P` satisfy `I`. -/
theorem eachState_of_eachStep {J I : σ → Prop} {P : σ → ε → Prop}
    (hJ : ∀ s e t, J s → M.step s e = some t → J t)
    (hI : ∀ s e t, J s → M.step s e = some t → P s e → I t) {s : σ} {es : List ε}
    (hs : J s) (hi : I s) (hP : M.EachStep P s es) : M.EachState I s es := by
  induction es generalizing s with
  | nil => exact hi
  | cons e es ih =>
    refine ⟨hi, ?_⟩
    intro t ht
    exact ih (hJ s e t hs ht) (hI s e t hs ht hP.1) (hP.2 t ht)

/-- A property that a step cannot bring about lasts along a run if it holds at its end. -/
theorem eachState_iff_last {I : σ → Prop} (hback : ∀ s e t, M.step s e = some t → I t → I s)
    {s u : σ} {es : List ε} (hr : M.run s es = some u) : M.EachState I s es ↔ I u := by
  induction es generalizing s with
  | nil =>
    cases hr
    exact Iff.rfl
  | cons e es ih =>
    obtain ⟨t, ht, hr⟩ := M.run_cons.mp hr
    simp only [EachState, ht, Option.some.injEq, forall_eq', ih hr, and_iff_right_iff_imp]
    intro hu
    exact hback s e t ht ((ih hr).mpr hu).head

/-- **How long a property lasts along a run**: if the guard `G` gives `I`, lasts
as long as `P` holds of the steps, and a step without `P` ends `I`, then the
states of the run satisfy `I` exactly when its steps satisfy `P`. -/
theorem eachState_iff_eachStep_of_guard {G I : σ → Prop} {P : σ → ε → Prop}
    (hGI : ∀ s, G s → I s) (hkeep : ∀ s e t, G s → M.step s e = some t → P s e → G t)
    (hend : ∀ s e t, G s → M.step s e = some t → ¬ P s e → ¬ I t) {s u : σ} {es : List ε}
    (hs : G s) (hr : M.run s es = some u) : M.EachState I s es ↔ M.EachStep P s es := by
  induction es generalizing s with
  | nil => exact ⟨fun _ => trivial, fun _ => hGI s hs⟩
  | cons e es ih =>
    obtain ⟨t, ht, hr⟩ := M.run_cons.mp hr
    simp only [EachState, EachStep, ht, Option.some.injEq, forall_eq']
    by_cases hp : P s e
    · have hrest := ih (hkeep s e t hs ht hp) hr
      exact ⟨fun h => ⟨hp, hrest.mp h.2⟩, fun h => ⟨hGI s hs, hrest.mpr h.2⟩⟩
    · exact ⟨fun h => absurd h.2.head (hend s e t hs ht hp), fun h => absurd h.1 hp⟩

/-- **When an invariant holds along a run**: if a step keeps `I` exactly when `P`
holds of it, the states of the run satisfy `I` exactly when its steps satisfy
`P`. -/
theorem eachState_iff_eachStep {J I : σ → Prop} {P : σ → ε → Prop}
    (hJ : ∀ s e t, J s → M.step s e = some t → J t)
    (hIP : ∀ s e t, J s → I s → M.step s e = some t → (I t ↔ P s e)) {s u : σ} {es : List ε}
    (hs : J s) (hi : I s) (hr : M.run s es = some u) :
    M.EachState I s es ↔ M.EachStep P s es := by
  apply eachState_iff_eachStep_of_guard (G := fun s => J s ∧ I s)
  · exact fun s h => h.2
  · intro s e t h ht hp
    exact ⟨hJ s e t h.1 ht, (hIP s e t h.1 h.2 ht).mpr hp⟩
  · intro s e t h ht hp hit
    exact hp ((hIP s e t h.1 h.2 ht).mp hit)
  · exact ⟨hs, hi⟩
  · exact hr

/-- Every two steps of the run along `es` that follow each other satisfy `P` in the
state before the first of them. -/
def EachTwo (M : Machine σ ε) (P : σ → ε → ε → Prop) (s : σ) : List ε → Prop
  | [] => True
  | [_] => True
  | e :: f :: es => P s e f ∧ ∀ t, M.step s e = some t → EachTwo M P t (f :: es)

/-- **A condition on steps as one on their predecessors**: if the step before decides
whether `Q` holds of a step, `Q` holds of the steps of a run exactly when it holds of the
first and every two neighbours satisfy `P`. -/
theorem eachStep_iff_eachTwo {J : σ → Prop} {Q : σ → ε → Prop} {P : σ → ε → ε → Prop}
    (hJ : ∀ s e t, J s → M.step s e = some t → J t)
    (hQP : ∀ s e t f u, J s → M.step s e = some t → M.step t f = some u → (Q t f ↔ P s e f))
    {s u : σ} {e : ε} {es : List ε} (hs : J s) (hr : M.run s (e :: es) = some u) :
    M.EachStep Q s (e :: es) ↔ Q s e ∧ M.EachTwo P s (e :: es) := by
  induction es generalizing s e with
  | nil => simp [EachStep, EachTwo]
  | cons f es ih =>
    obtain ⟨t, ht, hr⟩ := M.run_cons.mp hr
    obtain ⟨v, hv, -⟩ := M.run_cons.mp hr
    rw [EachStep, EachTwo]
    simp only [ht, Option.some.injEq, forall_eq']
    rw [ih (hJ s e t hs ht) hr, hQP s e t f v hs ht hv]

end Machine

/-- An event picks one of several things that wait: it and the others are all of them. -/
theorem perm_cons_eraseIdx {α : Type*} {l : List α} {i : Nat} {x : α} (h : l[i]? = some x) :
    (x :: l.eraseIdx i).Perm l := by
  obtain ⟨hi, rfl⟩ := List.getElem?_eq_some_iff.mp h
  exact List.getElem_cons_eraseIdx_perm hi

end MpRpc
