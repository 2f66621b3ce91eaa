import MpRpc.Client.FreshIds

/-!
# Distinct — no two requests have the same message ID

While the counter has been drawn from no more than 2^32 times, no two requests of a
client are registered under one msgid. `requests_` alone does not give that: it forgets
the msgid of a request whose write failed, and the message may still be on its way.
-/

namespace MpRpc.Client

variable {H : Type*} {s t : Client H} {r : Nat} {m : Msgid} {n : Nat}

/-- The value of the counter that call `r` tries or was registered under. -/
def candidate (s : Client H) (r : Nat) : Option Msgid :=
  match s.phase r with
  | some (.fetched m) => some m
  | some (.registered m) => some m
  | _ => none

theorem candidate_of_idOf (h : s.idOf r = some m) : s.candidate r = some m := by
  rw [candidate, phase_of_idOf h]

theorem candidate_of_phase (h : t.phase r = s.phase r) : t.candidate r = s.candidate r := by
  rw [candidate, candidate, h]

/-- `n` values have been drawn from the counter, and every call has one of its own. -/
structure Drawn (n : Nat) (s : Client H) : Prop where
  next : s.nextMsgid = UInt32.ofNat n
  drawn : ∀ r m, s.candidate r = some m → ∃ k < n, m = UInt32.ofNat k
  distinct : ∀ r r' m, s.candidate r = some m → s.candidate r' = some m → r = r'

/-- The values that an event draws from the counter. -/
def Event.draws : Event H → Nat
  | .call _ _ | .fetch _ => 1
  | _ => 0

/-- The calls keep or give up what they have drawn. -/
theorem Drawn.keep (h : Drawn n s) (hnext : t.nextMsgid = s.nextMsgid)
    (hkeep : ∀ r m, t.candidate r = some m → s.candidate r = some m) : Drawn n t where
  next := hnext.trans h.next
  drawn r m hm := h.drawn r m (hkeep r m hm)
  distinct r r' m hm hm' := h.distinct r r' m (hkeep r m hm) (hkeep r' m hm')

theorem ofNat_ne_of_lt {k : Nat} (hk : k < n) (hn : n < 2 ^ 32) :
    UInt32.ofNat k ≠ UInt32.ofNat n := by
  intro heq
  have htoNat := congrArg UInt32.toNat heq
  rw [UInt32.toNat_ofNat_of_lt' (Nat.lt_trans hk hn), UInt32.toNat_ofNat_of_lt' hn] at htoNat
  omega

/-- One call draws the next value. -/
theorem Drawn.draw (h : Drawn n s) (hn : n < 2 ^ 32) (hnext : t.nextMsgid = s.nextMsgid + 1)
    (hself : t.candidate r = some s.nextMsgid)
    (hothers : ∀ r', r' ≠ r → t.candidate r' = s.candidate r') : Drawn (n + 1) t := by
  -- the new value is none of those drawn before
  have hfresh : ∀ r', r' ≠ r → t.candidate r' ≠ some s.nextMsgid := by
    intro r' hne hm
    rw [hothers r' hne] at hm
    obtain ⟨k, hk, heq⟩ := h.drawn r' _ hm
    rw [h.next] at heq
    exact ofNat_ne_of_lt hk hn heq.symm
  refine ⟨?_, ?_, ?_⟩
  · rw [hnext, h.next]
    simp
  · intro r' m hm
    by_cases hr : r' = r
    · subst hr
      rw [hself] at hm
      exact ⟨n, Nat.lt_succ_self n, by rw [← Option.some.inj hm, h.next]⟩
    · obtain ⟨k, hk, heq⟩ := h.drawn r' m (hothers r' hr ▸ hm)
      exact ⟨k, Nat.lt_succ_of_lt hk, heq⟩
  · intro r₁ r₂ m h₁ h₂
    by_cases hr₁ : r₁ = r
    · by_cases hr₂ : r₂ = r
      · rw [hr₁, hr₂]
      · rw [hr₁, hself] at h₁
        exact absurd (h₂.trans h₁.symm) (hfresh r₂ hr₂)
    · by_cases hr₂ : r₂ = r
      · rw [hr₂, hself] at h₂
        exact absurd (h₁.trans h₂.symm) (hfresh r₁ hr₁)
      · exact h.distinct r₁ r₂ m (hothers r₁ hr₁ ▸ h₁) (hothers r₂ hr₂ ▸ h₂)

theorem candidate_addCall (c : Call H) {next : Msgid} {r' : Nat} (h : r' ≠ s.calls.length) :
    candidate { s with calls := s.calls ++ [c], nextMsgid := next } r' = s.candidate r' := by
  apply candidate_of_phase
  simp only [phase]
  rcases Nat.lt_or_gt_of_ne h with hlt | hgt
  · rw [List.getElem?_append_left hlt]
  · rw [List.getElem?_eq_none (by simp; omega), List.getElem?_eq_none (by omega)]

/-- **One event** draws at most one value. -/
theorem Drawn.step {e : Event H} (h : Drawn n s) (hn : n + e.draws ≤ 2 ^ 32)
    (he : s.step e = some t) : Drawn (n + e.draws) t := by
  cases e with
  | call method params =>
    cases he
    refine h.draw (r := s.calls.length) (by simpa [Event.draws] using hn) rfl ?_ ?_
    · simp [candidate, phase]
    · intro r' hr'
      exact candidate_addCall _ hr'
  | fetch r =>
    obtain ⟨hphase, rfl⟩ := step_fetch he
    refine h.draw (r := r) (by simpa [Event.draws] using hn) rfl ?_ ?_
    · have hself : phase { s.setPhase r (.fetched s.nextMsgid) with
          nextMsgid := s.nextMsgid + 1 } r = some (.fetched s.nextMsgid) :=
        phase_setPhase_self _ hphase
      rw [candidate, hself]
    · intro r' hne
      exact candidate_of_phase (phase_setPhase_ne _ hne)
  | register r =>
    obtain ⟨c, m, -, hphase, hcases⟩ := step_register he
    refine h.keep (by rcases hcases with rfl | ⟨-, rfl⟩ <;> rfl) ?_
    intro r' m' hm'
    by_cases hr : r' = r
    · subst hr
      rcases hcases with rfl | ⟨-, rfl⟩
      · rw [candidate, phase_setPhase_self _ hphase] at hm'
        cases hm'
      · have hself := idOf_enroll_self (m := m) hphase (packRequest m c.method c.params)
        rw [candidate_of_idOf hself] at hm'
        rw [candidate, hphase]
        exact hm'
    · rcases hcases with rfl | ⟨-, rfl⟩
      · rwa [candidate_of_phase (phase_setPhase_ne _ hr)] at hm'
      · have hsame : (s.enroll r m (packRequest m c.method c.params)).phase r' = s.phase r' :=
          phase_setPhase_ne (.registered m) hr
        rwa [candidate_of_phase hsame] at hm'
  | start | setHandler _ _ | notify _ _ | writeDone _ _ | readDone _ _ _ | readAgain _ =>
    have hst := undisturbed_of_other he trivial
    refine h.keep hst.next ?_
    intro r m hm
    rwa [candidate_of_phase (hst.phase r)] at hm

theorem drawn_init (reads : Nat) : Drawn 0 ({ reads } : Client H) where
  next := rfl
  drawn r m hm := by simp [candidate, phase] at hm
  distinct r r' m hm := by simp [candidate, phase] at hm

/-- **No two requests have one msgid.** -/
theorem Drawn.idOf_injective (h : Drawn n s) {r r' : Nat} (hr : s.idOf r = some m)
    (hr' : s.idOf r' = some m) : r = r' :=
  h.distinct r r' m (candidate_of_idOf hr) (candidate_of_idOf hr')

end MpRpc.Client
