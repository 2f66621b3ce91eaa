import MpRpc.Machine

/-!
# OneShot — callbacks that are to be called at most once

A component takes a callback with each request and numbers the requests. A request
waits until it is settled; settling it calls its callback any number of times, and
no request is settled twice. So a callback is called at most once exactly as long as
no settling calls it more than once.

A machine that keeps such an account in its state gets this for its runs by saying
what one step does to the account.
-/

namespace MpRpc

/-- The requests made so far, those that wait, and the callbacks called, each with the
number of its request. -/
structure OneShot where
  issued : Nat := 0
  pending : Set Nat := ∅
  called : List Nat := []

namespace OneShot

/-- One more request, which waits. -/
def issue (a : OneShot) : OneShot :=
  { a with issued := a.issued + 1, pending := insert (a.issued + 1) a.pending }

/-- The request `n` is settled with `times` calls of its callback. -/
def settle (a : OneShot) (n times : Nat) : OneShot :=
  { a with
    pending := a.pending \ {n}
    called := a.called ++ List.replicate times n }

/-- One more call of the callback of the request that is settled. -/
theorem settle_succ (a : OneShot) (n times : Nat) :
    a.settle n (times + 1) =
      { a.settle n times with called := (a.settle n times).called ++ [n] } := by
  rw [settle, List.replicate_succ', ← List.append_assoc]
  rfl

/-- One step settles at most one request, which it may have made itself. -/
inductive Moves : OneShot → (times : Nat) → OneShot → Prop where
  | stay (a : OneShot) : Moves a 0 a
  | issue {a b : OneShot} {times : Nat} (h : Moves a.issue times b) : Moves a times b
  | settle {a : OneShot} {n times : Nat} (h : n ∈ a.pending) : Moves a times (a.settle n times)

/-- The numbers are those given out. -/
structure Numbered (a : OneShot) : Prop where
  pending_le : ∀ n ∈ a.pending, n ≤ a.issued
  called_le : ∀ n ∈ a.called, n ≤ a.issued

/-- No callback was called twice, and none whose request waits. -/
structure Sound (a : OneShot) : Prop where
  nodup : a.called.Nodup
  fresh : ∀ n ∈ a.pending, n ∉ a.called

theorem numbered_empty : Numbered {} := by
  refine ⟨?_, ?_⟩ <;> simp

theorem sound_empty : Sound {} := by
  refine ⟨List.nodup_nil, ?_⟩
  simp

variable {a b : OneShot} {times : Nat}

/-- The next number is a new one. -/
theorem Numbered.new_notMem_pending (h : a.Numbered) : a.issued + 1 ∉ a.pending := by
  intro hmem
  have := h.pending_le _ hmem
  omega

theorem mem_called_settle {n m : Nat} (hm : m ∈ (a.settle n times).called) :
    m ∈ a.called ∨ m = n := by
  rcases List.mem_append.mp hm with hold | hnew
  · exact .inl hold
  · exact .inr (List.eq_of_mem_replicate hnew)

theorem Numbered.issue (h : a.Numbered) : a.issue.Numbered := by
  refine ⟨?_, ?_⟩
  · intro n hn
    rcases hn with rfl | hold
    · exact Nat.le_refl _
    · exact Nat.le_succ_of_le (h.pending_le n hold)
  · intro n hn
    exact Nat.le_succ_of_le (h.called_le n hn)

theorem Numbered.settle (h : a.Numbered) {n : Nat} (hn : n ∈ a.pending) :
    (a.settle n times).Numbered := by
  refine ⟨fun m hm => h.pending_le m hm.1, ?_⟩
  intro m hm
  rcases mem_called_settle hm with hbefore | heq
  · exact h.called_le m hbefore
  · rw [heq]
    exact h.pending_le n hn

theorem Numbered.moves (h : a.Numbered) (hm : Moves a times b) : b.Numbered := by
  induction hm with
  | stay a => exact h
  | issue _ ih => exact ih h.issue
  | settle hn => exact h.settle hn

theorem Sound.issue (h : a.Sound) (hnum : a.Numbered) : a.issue.Sound := by
  refine ⟨h.nodup, ?_⟩
  intro n hn hmem
  rcases hn with rfl | hold
  · have := hnum.called_le _ hmem
    omega
  · exact h.fresh n hold hmem

theorem Sound.settle (h : a.Sound) {n : Nat} (hn : n ∈ a.pending) (htimes : times ≤ 1) :
    (a.settle n times).Sound := by
  refine ⟨?_, ?_⟩
  · refine List.nodup_append.mpr ⟨h.nodup, List.nodup_replicate.mpr htimes, ?_⟩
    intro m hm k hk heq
    rw [heq, List.eq_of_mem_replicate hk] at hm
    exact h.fresh n hn hm
  · intro m hm hmem
    obtain ⟨hold, hne⟩ := hm
    rcases mem_called_settle hmem with hbefore | heq
    · exact h.fresh m hold hbefore
    · exact hne heq

/-- **A step that calls back at most once keeps the account sound.** -/
theorem Sound.moves (h : a.Sound) (hnum : a.Numbered) (hm : Moves a times b)
    (htimes : times ≤ 1) : b.Sound := by
  induction hm with
  | stay a => exact h
  | issue _ ih => exact ih (h.issue hnum) hnum.issue htimes
  | settle hn => exact h.settle hn htimes

theorem Moves.called_le (hm : Moves a times b) : a.called <+: b.called := by
  induction hm with
  | stay a => exact List.prefix_rfl
  | issue _ ih => exact ih
  | settle hn => exact List.prefix_append _ _

/-- A step that calls back more than once shows in the calls. -/
theorem Moves.not_nodup (hm : Moves a times b) (htimes : 1 < times) : ¬ b.called.Nodup := by
  induction hm with
  | stay a => omega
  | issue _ ih => exact ih htimes
  | settle hn =>
    intro hnodup
    have hreplicate := List.nodup_replicate.mp (List.nodup_append.mp hnodup).2.1
    omega

section Runs

variable {σ ε : Type*} {M : Machine σ ε} (account : σ → OneShot) {P : σ → ε → Prop}

/-- What was called stays called. -/
theorem called_le_of_run
    (hstep : ∀ s e t, (account s).Numbered → M.step s e = some t →
      ∃ times, Moves (account s) times (account t) ∧ (times ≤ 1 ↔ P s e))
    {s u : σ} {es : List ε} (hnum : (account s).Numbered) (hr : M.run s es = some u) :
    (account s).called <+: (account u).called := by
  induction es generalizing s with
  | nil =>
    cases hr
    exact List.prefix_rfl
  | cons e es ih =>
    obtain ⟨t, ht, hr⟩ := M.run_cons.mp hr
    obtain ⟨times, hm, -⟩ := hstep s e t hnum ht
    exact hm.called_le.trans (ih (hnum.moves hm) hr)

/-- **When callbacks are called at most once along a run**: if a step of the machine calls
back at most once exactly when `P` holds of it, no callback was called twice exactly when
`P` holds of every step. -/
theorem nodup_called_iff_eachStep
    (hstep : ∀ s e t, (account s).Numbered → M.step s e = some t →
      ∃ times, Moves (account s) times (account t) ∧ (times ≤ 1 ↔ P s e))
    {s u : σ} {es : List ε} (hs : (account s).Sound) (hnum : (account s).Numbered)
    (hr : M.run s es = some u) : (account u).called.Nodup ↔ M.EachStep P s es := by
  induction es generalizing s with
  | nil =>
    cases hr
    exact iff_of_true hs.nodup trivial
  | cons e es ih =>
    obtain ⟨t, ht, hr⟩ := M.run_cons.mp hr
    obtain ⟨times, hm, hP⟩ := hstep s e t hnum ht
    simp only [Machine.EachStep, ht, Option.some.injEq, forall_eq']
    by_cases htimes : times ≤ 1
    · have hrest := ih (hs.moves hnum hm htimes) (hnum.moves hm) hr
      exact ⟨fun h => ⟨hP.mp htimes, hrest.mp h⟩, fun h => hrest.mpr h.2⟩
    · refine iff_of_false ?_ fun h => htimes (hP.mpr h.1)
      intro hnodup
      have hgrows := called_le_of_run account hstep (hnum.moves hm) hr
      exact hm.not_nodup (by omega) (hnodup.sublist hgrows.sublist)

end Runs

end OneShot

end MpRpc
