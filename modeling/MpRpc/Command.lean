import Mathlib

/-!
# Command — imperative code that may throw or be undefined

A command works on a state. It ends with a value or with an exception, and an exception
leaves the state as the code has made it by then. Code whose behaviour is undefined, such
as an access to memory that was freed, has no outcome. The weakest precondition of a
command demands an outcome, and one condition for each of its two kinds; the rules below
compute it statement by statement.
-/

namespace MpRpc

/-- A command on the state `σ` with exceptions `ε` and value `α`. -/
def Command (σ ε α : Type) := σ → Option (Except ε α × σ)

namespace Command

variable {σ τ ε α β : Type}

/-- What the command does in state `s`. -/
def exec (c : Command σ ε α) (s : σ) : Option (Except ε α × σ) := c s

instance : Monad (Command σ ε) where
  pure a := fun s => some (.ok a, s)
  bind c f := fun s =>
    match c s with
    | none => none
    | some (.error e, t) => some (.error e, t)
    | some (.ok a, t) => f a t

/-- `throw e` -/
def throw (e : ε) : Command σ ε α := fun s => some (.error e, s)

/-- Undefined behaviour. -/
def undefined : Command σ ε α := fun _ => none

/-- A value that the code takes to be there. -/
def ofOption : Option α → Command σ ε α
  | some a => pure a
  | none => undefined

/-- The state. -/
def get : Command σ ε σ := fun s => some (.ok s, s)

/-- An assignment. -/
def modify (f : σ → σ) : Command σ ε Unit := fun s => some (.ok (), f s)

/-- A command on a part of the state. -/
def zoom (view : σ → τ) (put : τ → σ → σ) (c : Command τ ε α) : Command σ ε α :=
  fun s => (c (view s)).map fun out => (out.1, put out.2 s)

/-- **The weakest precondition**: in state `s` the command has an outcome, which satisfies
`Q` if it is a value and `E` if it is an exception. -/
def wp (c : Command σ ε α) (Q : α → σ → Prop) (E : ε → σ → Prop) (s : σ) : Prop :=
  match c s with
  | none => False
  | some (.ok a, t) => Q a t
  | some (.error e, t) => E e t

variable {c : Command σ ε α} {f : α → Command σ ε β} {Q Q' : α → σ → Prop}
  {E E' : ε → σ → Prop} {s : σ}

@[simp] theorem wp_pure (a : α) : wp (pure a : Command σ ε α) Q E s ↔ Q a s := Iff.rfl

@[simp] theorem wp_throw (e : ε) : wp (throw e : Command σ ε α) Q E s ↔ E e s := Iff.rfl

@[simp] theorem wp_get {Q : σ → σ → Prop} : wp (get : Command σ ε σ) Q E s ↔ Q s s := Iff.rfl

@[simp] theorem wp_modify (g : σ → σ) {Q : Unit → σ → Prop} :
    wp (modify g : Command σ ε Unit) Q E s ↔ Q () (g s) := Iff.rfl

@[simp] theorem wp_ofOption_some (a : α) :
    wp (ofOption (some a) : Command σ ε α) Q E s ↔ Q a s := Iff.rfl

/-- **Statements in sequence.** -/
@[simp] theorem wp_bind {Q : β → σ → Prop} :
    wp (c >>= f) Q E s ↔ wp c (fun a t => wp (f a) Q E t) E s := by
  simp only [wp, bind]
  cases c s with
  | none => rfl
  | some out =>
    obtain ⟨result, t⟩ := out
    cases result with
    | ok a => rfl
    | error e => rfl

@[simp] theorem wp_ite (p : Prop) [Decidable p] (c d : Command σ ε α) :
    wp (if p then c else d) Q E s ↔ if p then wp c Q E s else wp d Q E s := by
  by_cases hp : p
  · rw [if_pos hp, if_pos hp]
  · rw [if_neg hp, if_neg hp]

@[simp] theorem wp_zoom (view : σ → τ) (put : τ → σ → σ) (c : Command τ ε α) :
    wp (zoom view put c) Q E s ↔
      wp c (fun a t => Q a (put t s)) (fun e t => E e (put t s)) (view s) := by
  simp only [wp, zoom]
  cases c (view s) with
  | none => rfl
  | some out =>
    obtain ⟨result, t⟩ := out
    cases result with
    | ok a => rfl
    | error e => rfl

/-- **The rule of consequence.** -/
theorem wp_mono (h : wp c Q E s) (hQ : ∀ a t, Q a t → Q' a t) (hE : ∀ e t, E e t → E' e t) :
    wp c Q' E' s := by
  unfold wp at h ⊢
  split at h
  · exact h
  · exact hQ _ _ h
  · exact hE _ _ h

/-- A weakest precondition holds of the value that there is. -/
theorem value_of_wp {a : α} {t : σ} (h : wp c Q E s) (hexec : c.exec s = some (.ok a, t)) :
    Q a t := by
  unfold wp at h
  change c s = some (.ok a, t) at hexec
  rw [hexec] at h
  exact h

/-- A command that can only end in one way. -/
theorem exec_of_wp {a : α} {t : σ} (h : wp c (fun b u => b = a ∧ u = t) (fun _ _ => False) s) :
    c.exec s = some (.ok a, t) := by
  unfold wp at h
  split at h
  · exact h.elim
  · rename_i heq
    rw [exec, heq, h.1, h.2]
  · exact h.elim

/-- The outcome that a weakest precondition promises. -/
theorem exists_outcome (h : wp c Q E s) :
    (∃ a t, c.exec s = some (.ok a, t) ∧ Q a t) ∨ ∃ e t, c.exec s = some (.error e, t) ∧ E e t := by
  unfold wp at h
  split at h
  · exact h.elim
  · rename_i a t heq
    exact .inl ⟨a, t, heq, h⟩
  · rename_i e t heq
    exact .inr ⟨e, t, heq, h⟩

end Command

end MpRpc
