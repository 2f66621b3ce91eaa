import MpRpc.Relay

/-!
# Tally — boxes that lose nothing

A `Ledger` bounds what is inside a relay from above: nothing comes from nowhere. A
`Tally` is a ledger whose account is exact: a relay that is settled, in that it has nothing
left to do, is empty; so it has given something out for everything that was put in.
-/

namespace MpRpc.Relay

variable {σ τ ι κ α β γ δ : Type*}

/-- A ledger without reports, whose account of a settled relay is empty. -/
structure Tally (C : Relay σ ι α β) (Ok : α → Prop) (Fair : σ → ι → Prop)
    (Stems : α → β → Prop) (Settled : σ → Prop) extends
    C.Ledger Ok Fair Stems fun _ => False where
  settled : ∀ {s held}, Holds s held → Settled s → held = 0

namespace Tally

theorem stems {C : Relay σ ι α β} {Ok : α → Prop} {Fair : σ → ι → Prop} {Stems : α → β → Prop}
    {Settled : σ → Prop} (T : C.Tally Ok Fair Stems Settled) {s t : σ} {held : Multiset α} {i : ι}
    {b : β} (h : T.Holds s held) (hall : ∀ x ∈ held, Ok x) (hfair : Fair s i)
    (hs : C.step s i = some (t, some b)) :
    ∃ a rest, held = a ::ₘ rest ∧ Stems a b ∧ T.Holds t rest :=
  (T.gives h hall hfair hs).resolve_right And.left

/-- As for a ledger. -/
def weaken {C : Relay σ ι α β} {Ok Ok' : α → Prop} {Fair : σ → ι → Prop}
    {Stems Stems' : α → β → Prop} {Settled : σ → Prop} (T : C.Tally Ok Fair Stems Settled)
    (hok : ∀ a, Ok' a → Ok a) (hstems : ∀ a b, Ok' a → Stems a b → Stems' a b) :
    C.Tally Ok' Fair Stems' Settled where
  toLedger := T.toLedger.weaken hok (fun _ _ h => h) hstems
  settled := T.settled

variable {A : Relay σ ι α β} {B : Relay τ κ γ δ} {pass : β → Option γ} {OkA : α → Prop}
  {FairA : σ → ι → Prop} {StemsA : α → β → Prop} {SettledA : σ → Prop} {OkB : γ → Prop}
  {FairB : τ → κ → Prop} {StemsB : γ → δ → Prop} {SettledB : τ → Prop}

/-- **The tally of two relays in a row**, if nothing is dropped between them. -/
def comp (TA : A.Tally OkA FairA StemsA SettledA) (TB : B.Tally OkB FairB StemsB SettledB)
    (hpass : ∀ a b, OkA a → StemsA a b → pass b ≠ none)
    (hok : ∀ a c, OkA a → Ledger.Passes pass StemsA a c → OkB c) :
    (Relay.comp A B pass).Tally OkA (FairBoth FairA FairB)
      (fun a d => ∃ c, Ledger.Passes pass StemsA a c ∧ StemsB c d)
      (fun s => SettledA s.1 ∧ SettledB s.2) where
  toLedger := Ledger.comp False TA.toLedger TB.toLedger (fun _ h => h.elim) (fun _ => hpass) hok
  settled := by
    rintro s held ⟨first, origins, second, lost, hfirst, hsecond, hrel, rfl, hlost⟩ ⟨hA, hB⟩
    have hnone := TB.settled hsecond hB
    subst hnone
    rw [TA.settled hfirst hA, Multiset.rel_zero_right.mp hrel, hlost id, zero_add, zero_add]

/-- **The tally of a backlog** to which everything that is put in is added. -/
def ofBacklog {C : Relay σ ι α β} {Ok : α → Prop} {Fair : σ → ι → Prop} {Stems : α → β → Prop}
    (Inv : σ → Prop) (backlog : σ → Multiset α) (hinit : Inv C.init ∧ backlog C.init = 0)
    (hput : ∀ {s t a}, Inv s → Ok a → C.put s a = some t → Inv t ∧ backlog t = a ::ₘ backlog s)
    (hstep : ∀ {s t i out}, Inv s → Fair s i → C.step s i = some (t, out) → Inv t ∧
      (out = none ∧ backlog t = backlog s ∨
        ∃ a b, out = some b ∧ Stems a b ∧ backlog s = a ::ₘ backlog t)) :
    C.Tally Ok Fair Stems fun s => backlog s = 0 where
  toLedger := Ledger.ofBacklog Inv backlog False hinit
    (fun hinv hok hs => (hput hinv hok hs).imp_right fun h => ⟨h.le, fun _ => h⟩) hstep
  settled := by
    rintro s held ⟨-, -, hexact⟩ hsettled
    exact (hexact id).symm.trans hsettled

end Tally

end MpRpc.Relay
