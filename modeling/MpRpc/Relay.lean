import Mathlib
import MpRpc.Machine

/-!
# Relay — boxes that values go into and come out of

A relay takes values, moves by itself and gives values out; what it takes and
what it gives may be of different types. A `Ledger` accounts for the values
inside, as long as the moves of the relay are fair: each value given out stems
from one that was put in, and no two of them from the same one. Values may
overtake each other, and the account may hold more than is inside, so that values
may get lost; but nothing comes from nowhere and nothing comes twice. A report,
such as an error, is given out for no value.

Two relays in a row are a relay, with a ledger if each of them has one. A value
that is dropped between the two stays in the account.
-/

namespace MpRpc

/-- A box that takes values of `α` and gives out values of `β`. -/
structure Relay (σ ι α β : Type*) where
  init : σ
  /-- `none` while the value cannot be taken -/
  put : σ → α → Option σ
  /-- a move of the box itself, which may give something out -/
  step : σ → ι → Option (σ × Option β)

namespace Relay

variable {σ τ ι κ α β γ δ : Type*}

/-- An account of what is inside. `Stems a b` says that `b` may be given out for `a`, and
`Report b` that it may be given out for nothing. Only values that are `Ok` are put in, and
only fair moves are accounted for. -/
structure Ledger (C : Relay σ ι α β) (Ok : α → Prop) (Fair : σ → ι → Prop)
    (Stems : α → β → Prop) (Report : β → Prop) where
  /-- the account stands at `held` -/
  Holds : σ → Multiset α → Prop
  init : Holds C.init 0
  put : ∀ {s t held a}, Holds s held → (∀ x ∈ a ::ₘ held, Ok x) → C.put s a = some t →
    Holds t (a ::ₘ held)
  silent : ∀ {s t held i}, Holds s held → (∀ x ∈ held, Ok x) → Fair s i →
    C.step s i = some (t, none) → Holds t held
  gives : ∀ {s t held i b}, Holds s held → (∀ x ∈ held, Ok x) → Fair s i →
    C.step s i = some (t, some b) →
    (∃ a rest, held = a ::ₘ rest ∧ Stems a b ∧ Holds t rest) ∨ Report b ∧ Holds t held

/-- The values of a list are put in one after the other. -/
def putAll (C : Relay σ ι α β) : σ → List α → Option σ
  | s, [] => some s
  | s, a :: rest => (C.put s a).bind fun t => putAll C t rest

theorem Ledger.putAll {C : Relay σ ι α β} {Ok : α → Prop} {Fair : σ → ι → Prop}
    {Stems : α → β → Prop} {Report : β → Prop} (L : C.Ledger Ok Fair Stems Report) {s t : σ}
    {held : Multiset α} {values : List α} (h : L.Holds s held) (hvalues : ∀ x ∈ values, Ok x)
    (hheld : ∀ x ∈ held, Ok x) (ht : C.putAll s values = some t) :
    L.Holds t (held + (values : Multiset α)) := by
  induction values generalizing s held with
  | nil =>
    cases ht
    simpa using h
  | cons a rest ih =>
    obtain ⟨u, hu, ht⟩ := Option.bind_eq_some_iff.mp ht
    obtain ⟨ha, hrest⟩ := List.forall_mem_cons.mp hvalues
    have hall : ∀ x ∈ a ::ₘ held, Ok x := Multiset.forall_mem_cons.mpr ⟨ha, hheld⟩
    have hnext := ih (L.put h hall hu) hrest hall ht
    rwa [Multiset.cons_add, ← Multiset.add_cons, Multiset.cons_coe] at hnext

/-- Fewer values are put in, fewer moves are made, and less is said about where a value
stems from. -/
def Ledger.weaken {C : Relay σ ι α β} {Ok Ok' : α → Prop} {Fair Fair' : σ → ι → Prop}
    {Stems Stems' : α → β → Prop} {Report : β → Prop} (L : C.Ledger Ok Fair Stems Report)
    (hok : ∀ a, Ok' a → Ok a) (hfair : ∀ s i, Fair' s i → Fair s i)
    (hstems : ∀ a b, Ok' a → Stems a b → Stems' a b) : C.Ledger Ok' Fair' Stems' Report where
  Holds := L.Holds
  init := L.init
  put h hall hput := L.put h (fun x hx => hok x (hall x hx)) hput
  silent h hall hi hs := L.silent h (fun x hx => hok x (hall x hx)) (hfair _ _ hi) hs
  gives := by
    intro s t held i b h hall hi hs
    have hall' : ∀ x ∈ held, Ok x := fun x hx => hok x (hall x hx)
    rcases L.gives h hall' (hfair _ _ hi) hs with ⟨a, rest, rfl, hab, hrest⟩ | hreport
    · exact .inl ⟨a, rest, rfl, hstems a b (hall a (Multiset.mem_cons_self a rest)) hab, hrest⟩
    · exact .inr hreport

/-! ## Two relays in a row -/

/-- What `A` gives out is put into `B`, as far as `pass` lets it. -/
def comp (A : Relay σ ι α β) (B : Relay τ κ γ δ) (pass : β → Option γ) :
    Relay (σ × τ) (ι ⊕ κ) α δ where
  init := (A.init, B.init)
  put s a := (A.put s.1 a).map (·, s.2)
  step s
    | .inl i =>
        match A.step s.1 i with
        | none => none
        | some (a, none) => some ((a, s.2), none)
        | some (a, some b) =>
            match pass b with
            | none => some ((a, s.2), none)
            | some c => (B.put s.2 c).map fun t => ((a, t), none)
    | .inr k => (B.step s.2 k).map fun out => ((s.1, out.1), out.2)

variable {A : Relay σ ι α β} {B : Relay τ κ γ δ} {pass : β → Option γ}

/-- A move of the first relay gives out nothing; what it gives out inside is dropped or
put into the second. -/
theorem comp_step_inl {s t : σ × τ} {i : ι} {out : Option δ}
    (h : (comp A B pass).step s (.inl i) = some (t, out)) :
    out = none ∧ ∃ given, A.step s.1 i = some (t.1, given) ∧
      (given.bind pass = none ∧ t.2 = s.2 ∨
        ∃ b c, given = some b ∧ pass b = some c ∧ B.put s.2 c = some t.2) := by
  simp only [comp] at h
  split at h
  · cases h
  · rename_i a ha
    cases h
    exact ⟨rfl, none, ha, .inl ⟨rfl, rfl⟩⟩
  · rename_i a b ha
    split at h
    · rename_i hb
      cases h
      exact ⟨rfl, some b, ha, .inl ⟨hb, rfl⟩⟩
    · rename_i c hb
      obtain ⟨u, hu, heq⟩ := Option.map_eq_some_iff.mp h
      cases heq
      exact ⟨rfl, some b, ha, .inr ⟨b, c, rfl, hb, hu⟩⟩

theorem comp_step_inr {s t : σ × τ} {k : κ} {out : Option δ}
    (h : (comp A B pass).step s (.inr k) = some (t, out)) :
    t.1 = s.1 ∧ B.step s.2 k = some (t.2, out) := by
  obtain ⟨u, hu, heq⟩ := Option.map_eq_some_iff.mp h
  cases heq
  exact ⟨rfl, hu⟩

/-- The moves of both are fair. -/
def FairBoth (FairA : σ → ι → Prop) (FairB : τ → κ → Prop) (s : σ × τ) : ι ⊕ κ → Prop
  | .inl i => FairA s.1 i
  | .inr k => FairB s.2 k

instance {FairA : σ → ι → Prop} {FairB : τ → κ → Prop} [∀ a, DecidablePred (FairA a)]
    [∀ b, DecidablePred (FairB b)] (s : σ × τ) : DecidablePred (FairBoth FairA FairB s)
  | .inl i => inferInstanceAs (Decidable (FairA s.1 i))
  | .inr k => inferInstanceAs (Decidable (FairB s.2 k))

/-- Any move is fair. -/
def AnyMove (_ : σ) (_ : ι) : Prop := True

theorem fairBoth_anyMove (s : σ × τ) (i : ι ⊕ κ) : FairBoth AnyMove AnyMove s i := by
  cases i <;> trivial

namespace Ledger

variable {OkA : α → Prop} {FairA : σ → ι → Prop} {StemsA : α → β → Prop} {ReportA : β → Prop}
  {OkB : γ → Prop} {FairB : τ → κ → Prop} {StemsB : γ → δ → Prop} {ReportB : δ → Prop}

/-- `c` is put into the second relay for `a`. -/
def Passes (pass : β → Option γ) (StemsA : α → β → Prop) (a : α) (c : γ) : Prop :=
  ∃ b, StemsA a b ∧ pass b = some c

/-- What is inside two relays: the values in the first, those for which the values in the
second were given out, and those that were dropped between the two, if `Loses`. -/
def HoldsBoth (LA : A.Ledger OkA FairA StemsA ReportA) (LB : B.Ledger OkB FairB StemsB ReportB)
    (pass : β → Option γ) (Loses : Prop) (s : σ × τ) (held : Multiset α) : Prop :=
  ∃ first origins second lost, LA.Holds s.1 first ∧ LB.Holds s.2 second ∧
    Multiset.Rel (Passes pass StemsA) origins second ∧ held = first + origins + lost ∧
    (¬ Loses → lost = 0)

theorem ok_of_rel {origins : Multiset α} {second : Multiset γ}
    (hok : ∀ a c, OkA a → Passes pass StemsA a c → OkB c)
    (hrel : Multiset.Rel (Passes pass StemsA) origins second) (h : ∀ a ∈ origins, OkA a) :
    ∀ c ∈ second, OkB c := by
  intro c hc
  obtain ⟨a, ha, hac⟩ := Multiset.exists_mem_of_rel_of_mem (Multiset.rel_flip.mpr hrel) hc
  exact hok a c (h a ha) hac

/-- What is `Ok` in the account is so in its parts. -/
theorem ok_parts {first origins lost : Multiset α} (h : ∀ x ∈ first + origins + lost, OkA x) :
    (∀ x ∈ first, OkA x) ∧ ∀ x ∈ origins, OkA x := by
  simp only [Multiset.mem_add] at h
  exact ⟨fun x hx => h x (.inl (.inl hx)), fun x hx => h x (.inl (.inr hx))⟩

/-- **A move of the first relay** keeps the account of both. -/
theorem holdsBoth_inl {Loses : Prop} (LA : A.Ledger OkA FairA StemsA ReportA)
    (LB : B.Ledger OkB FairB StemsB ReportB) (hreport : ∀ b, ReportA b → pass b = none)
    (hpass : ¬ Loses → ∀ a b, OkA a → StemsA a b → pass b ≠ none)
    (hok : ∀ a c, OkA a → Passes pass StemsA a c → OkB c) {s t : σ × τ} {held : Multiset α}
    {i : ι} {out : Option δ} (h : HoldsBoth LA LB pass Loses s held) (hall : ∀ x ∈ held, OkA x)
    (hfair : FairA s.1 i) (hs : (comp A B pass).step s (.inl i) = some (t, out)) :
    HoldsBoth LA LB pass Loses t held := by
  obtain ⟨first, origins, second, lost, hfirst, hsecond, hrel, rfl, hlost⟩ := h
  obtain ⟨hokFirst, hokOrigins⟩ := ok_parts hall
  obtain ⟨-, given, hgiven, hcases⟩ := comp_step_inl hs
  cases given with
  | none =>
    rcases hcases with ⟨-, hsame⟩ | ⟨b, c, hb, -⟩
    · exact ⟨first, origins, second, lost, LA.silent hfirst hokFirst hfair hgiven,
        hsame ▸ hsecond, hrel, rfl, hlost⟩
    · cases hb
  | some b =>
    rcases LA.gives hfirst hokFirst hfair hgiven with
      ⟨a, rest, rfl, hstems, hrest⟩ | ⟨hfree, hheld⟩
    · have ha := hokFirst a (Multiset.mem_cons_self a rest)
      rcases hcases with ⟨hnone, hsame⟩ | ⟨b', c, hb, hc, hput⟩
      · -- the value is dropped between the two
        refine ⟨rest, origins, second, a ::ₘ lost, hrest, hsame ▸ hsecond, hrel, ?_, ?_⟩
        · simp only [Multiset.cons_add, Multiset.add_cons]
        · exact fun hno => absurd hnone (hpass hno a b ha hstems)
      · cases hb
        have hac : Passes pass StemsA a c := ⟨b, hstems, hc⟩
        have hokSecond : ∀ x ∈ c ::ₘ second, OkB x :=
          Multiset.forall_mem_cons.mpr ⟨hok a c ha hac, ok_of_rel hok hrel hokOrigins⟩
        refine ⟨rest, a ::ₘ origins, c ::ₘ second, lost, hrest, LB.put hsecond hokSecond hput,
          .cons hac hrel, ?_, hlost⟩
        rw [Multiset.add_cons, Multiset.cons_add]
    · rcases hcases with ⟨-, hsame⟩ | ⟨b', c, hb, hc, -⟩
      · exact ⟨first, origins, second, lost, hheld, hsame ▸ hsecond, hrel, rfl, hlost⟩
      · cases hb
        rw [hreport b hfree] at hc
        cases hc

/-- **The ledger of two relays in a row.** -/
def comp (Loses : Prop) (LA : A.Ledger OkA FairA StemsA ReportA)
    (LB : B.Ledger OkB FairB StemsB ReportB) (hreport : ∀ b, ReportA b → pass b = none)
    (hpass : ¬ Loses → ∀ a b, OkA a → StemsA a b → pass b ≠ none)
    (hok : ∀ a c, OkA a → Passes pass StemsA a c → OkB c) :
    (comp A B pass).Ledger OkA (FairBoth FairA FairB)
      (fun a d => ∃ c, Passes pass StemsA a c ∧ StemsB c d) ReportB where
  Holds := HoldsBoth LA LB pass Loses
  init := ⟨0, 0, 0, 0, LA.init, LB.init, .zero, by simp, fun _ => rfl⟩
  put := by
    rintro s t held a ⟨first, origins, second, lost, hfirst, hsecond, hrel, rfl, hlost⟩ hall hput
    obtain ⟨u, hu, rfl⟩ := Option.map_eq_some_iff.mp hput
    have hokFirst : ∀ x ∈ a ::ₘ first, OkA x := by
      rw [← Multiset.cons_add, ← Multiset.cons_add] at hall
      exact (ok_parts hall).1
    refine ⟨a ::ₘ first, origins, second, lost, LA.put hfirst hokFirst hu, hsecond, hrel, ?_,
      hlost⟩
    rw [Multiset.cons_add, Multiset.cons_add]
  silent := by
    rintro s t held (i | k) h hall hfair hs
    · exact holdsBoth_inl LA LB hreport hpass hok h hall hfair hs
    · obtain ⟨first, origins, second, lost, hfirst, hsecond, hrel, rfl, hlost⟩ := h
      obtain ⟨hsame, hk⟩ := comp_step_inr hs
      have hokSecond := ok_of_rel hok hrel (ok_parts hall).2
      exact ⟨first, origins, second, lost, hsame ▸ hfirst, LB.silent hsecond hokSecond hfair hk,
        hrel, rfl, hlost⟩
  gives := by
    rintro s t held (i | k) d h hall hfair hs
    · cases (comp_step_inl hs).1
    · obtain ⟨first, origins, second, lost, hfirst, hsecond, hrel, rfl, hlost⟩ := h
      obtain ⟨hsame, hk⟩ := comp_step_inr hs
      have hokSecond := ok_of_rel hok hrel (ok_parts hall).2
      rcases LB.gives hsecond hokSecond hfair hk with ⟨c, rest, rfl, hstems, hrest⟩ | ⟨hfree, hheld⟩
      · -- the value for which `c` was given out leaves the account with it
        obtain ⟨a, origins', hac, hrel', rfl⟩ := Multiset.rel_cons_right.mp hrel
        refine .inl ⟨a, first + origins' + lost, ?_, ⟨c, hac, hstems⟩, ?_⟩
        · rw [Multiset.add_cons, Multiset.cons_add]
        · exact ⟨first, origins', rest, lost, hsame ▸ hfirst, hrest, hrel', rfl, hlost⟩
      · exact .inr ⟨hfree, first, origins, second, lost, hsame ▸ hfirst, hheld, hrel, rfl, hlost⟩

end Ledger

/-! ## Relays with a backlog -/

section Backlog

variable {C : Relay σ ι α β} {Ok : α → Prop} {Fair : σ → ι → Prop} {Stems : α → β → Prop}
  (Inv : σ → Prop) (backlog : σ → Multiset α)

/-- **The ledger of a backlog**, for a relay that gives something out whenever a value
leaves its backlog. What is put in is added to the backlog, or dropped if `Loses`. -/
def Ledger.ofBacklog (Loses : Prop) (hinit : Inv C.init ∧ backlog C.init = 0)
    (hput : ∀ {s t a}, Inv s → Ok a → C.put s a = some t → Inv t ∧
      backlog t ≤ a ::ₘ backlog s ∧ (¬ Loses → backlog t = a ::ₘ backlog s))
    (hstep : ∀ {s t i out}, Inv s → Fair s i → C.step s i = some (t, out) → Inv t ∧
      (out = none ∧ backlog t = backlog s ∨
        ∃ a b, out = some b ∧ Stems a b ∧ backlog s = a ::ₘ backlog t)) :
    C.Ledger Ok Fair Stems fun _ => False where
  Holds s held := Inv s ∧ backlog s ≤ held ∧ (¬ Loses → backlog s = held)
  init := ⟨hinit.1, hinit.2.le, fun _ => hinit.2⟩
  put := by
    rintro s t held a ⟨hinv, hle, hexact⟩ hall hs
    obtain ⟨hinv', hnext, hadded⟩ := hput hinv (hall a (Multiset.mem_cons_self a held)) hs
    refine ⟨hinv', hnext.trans (Multiset.cons_le_cons a hle), ?_⟩
    intro hno
    rw [hadded hno, hexact hno]
  silent := by
    rintro s t held i ⟨hinv, hle, hexact⟩ - hfair hs
    obtain ⟨hinv', ⟨-, hsame⟩ | ⟨a, b, hout, -⟩⟩ := hstep hinv hfair hs
    · exact ⟨hinv', hsame ▸ hle, fun hno => hsame.trans (hexact hno)⟩
    · cases hout
  gives := by
    rintro s t held i b ⟨hinv, hle, hexact⟩ - hfair hs
    obtain ⟨hinv', ⟨hout, -⟩ | ⟨a, b', hout, hstems, hback⟩⟩ := hstep hinv hfair hs
    · cases hout
    · cases hout
      rw [hback] at hle hexact
      obtain ⟨more, rfl⟩ := Multiset.le_iff_exists_add.mp hle
      rw [Multiset.cons_add] at hexact ⊢
      exact .inl ⟨a, _, rfl, hstems, hinv', Multiset.le_add_right _ _,
        fun hno => (Multiset.cons_inj_right a).mp (hexact hno)⟩

end Backlog

end Relay

end MpRpc
