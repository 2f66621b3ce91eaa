import Mathlib

/-!
# Framing — cutting a stream into self-delimiting frames

A framer looks at the front of a sequence and answers that a complete frame
of some length stands there, that more input is needed, or that no frame can
start like this. The two laws say that it decides from left to right: an
answer other than "more input" is final, whatever is appended later.

The rules below speak about a stream that is a sequence of frames followed
by an unfinished one, cut anywhere: a framer that sees only a prefix of it
never reports an error, and what it reports as complete is the first frame.
-/

namespace MpRpc

/-- The answer of a framer about the front of a sequence. -/
inductive Verdict where
  | complete (n : Nat)
  | incomplete
  | error
deriving DecidableEq, Repr

/-- A decision from left to right where the first frame ends. -/
structure Framer (α : Type*) where
  parse : List α → Verdict
  complete_le : ∀ {xs n}, parse xs = .complete n → n ≤ xs.length
  complete_append : ∀ {xs n}, parse xs = .complete n → ∀ ys, parse (xs ++ ys) = .complete n
  error_append : ∀ {xs}, parse xs = .error → ∀ ys, parse (xs ++ ys) = .error

namespace Framer

variable {α : Type*} (F : Framer α)

/-- `x` is exactly one frame. -/
def IsFrame (x : List α) : Prop := F.parse x = .complete x.length

/-- `tail` is the beginning of a frame that has not ended. -/
def Unfinished (tail : List α) : Prop := F.parse tail = .incomplete

/-- The stream of the frames `xs` followed by the unfinished `tail`. -/
structure Stream (xs : List (List α)) (tail : List α) : Prop where
  frames : ∀ x ∈ xs, F.IsFrame x
  unfinished : F.Unfinished tail

variable {F}

/-- A frame that has not come to its end is unfinished. -/
theorem IsFrame.unfinished {x tail : List α} (h : F.IsFrame (x ++ tail)) (htail : tail ≠ []) :
    F.Unfinished x := by
  unfold Unfinished
  cases hx : F.parse x with
  | incomplete => rfl
  | error => cases (F.error_append hx tail).symm.trans h
  | complete n =>
    have hle := F.complete_le hx
    have hlength : 0 < tail.length := List.length_pos_iff.mpr htail
    cases (F.complete_append hx tail).symm.trans h
    rw [List.length_append] at hle
    omega

theorem Stream.of_append {xs ys : List (List α)} {tail : List α}
    (h : F.Stream (xs ++ ys) tail) : F.Stream ys tail :=
  ⟨fun y hy => h.frames y (List.mem_append_right xs hy), h.unfinished⟩

/-- What the framer answers on the whole stream. -/
theorem Stream.parse {xs : List (List α)} {tail : List α} (h : F.Stream xs tail) :
    F.parse (xs.flatten ++ tail) =
      match xs with
      | [] => .incomplete
      | x :: _ => .complete x.length := by
  cases xs with
  | nil => exact h.unfinished
  | cons x xs =>
    rw [List.flatten_cons, List.append_assoc]
    exact F.complete_append (h.frames x List.mem_cons_self) _

/-- Seen through any prefix, a stream never looks broken. -/
theorem Stream.parse_ne_error {xs : List (List α)} {tail seen unseen : List α}
    (h : F.Stream xs tail) (hs : seen ++ unseen = xs.flatten ++ tail) :
    F.parse seen ≠ .error := by
  intro he
  have hall := F.error_append he unseen
  rw [hs, h.parse] at hall
  cases xs <;> cases hall

/-- **What is reported is the first frame**: a complete answer on a prefix of
the stream cuts off exactly its first frame. -/
theorem Stream.parse_complete {xs : List (List α)} {tail seen unseen : List α} {n : Nat}
    (h : F.Stream xs tail) (hs : seen ++ unseen = xs.flatten ++ tail)
    (hp : F.parse seen = .complete n) :
    ∃ x ys, xs = x :: ys ∧ seen.take n = x ∧
      seen.drop n ++ unseen = ys.flatten ++ tail := by
  have hall := F.complete_append hp unseen
  rw [hs, h.parse] at hall
  cases xs with
  | nil => cases hall
  | cons x ys =>
    have hn : n = x.length := by
      simpa using hall.symm
    have hle := F.complete_le hp
    have htake : (seen ++ unseen).take n = x := by
      rw [hs, List.flatten_cons, List.append_assoc, hn, List.take_left']
      rfl
    have hdrop : (seen ++ unseen).drop n = ys.flatten ++ tail := by
      rw [hs, List.flatten_cons, List.append_assoc, hn, List.drop_left']
      rfl
    rw [List.take_append_of_le_length hle] at htake
    rw [List.drop_append_of_le_length hle] at hdrop
    exact ⟨x, ys, rfl, htake, hdrop⟩

/-- `xs` are cut off the front of a sequence, one complete frame after the other, and
`rest` is left of it. -/
inductive Cuts (F : Framer α) : List α → List (List α) → List α → Prop where
  | nil (seen : List α) : Cuts F seen [] seen
  | cons {seen rest : List α} {n : Nat} {xs : List (List α)} (hp : F.parse seen = .complete n)
      (hrest : Cuts F (seen.drop n) xs rest) : Cuts F seen (seen.take n :: xs) rest

/-- What was cut off stays cut off when the sequence goes on. -/
theorem Cuts.append {seen rest : List α} {xs : List (List α)} (h : F.Cuts seen xs rest)
    (ys : List α) : F.Cuts (seen ++ ys) xs (rest ++ ys) := by
  induction h with
  | nil seen => exact .nil _
  | @cons seen rest n xs hp hrest ih =>
    have hle := F.complete_le hp
    rw [← List.drop_append_of_le_length hle] at ih
    rw [← List.take_append_of_le_length hle]
    exact .cons (F.complete_append hp ys) ih

/-- One more frame is cut off. -/
theorem Cuts.concat {seen rest : List α} {xs : List (List α)} {n : Nat} (h : F.Cuts seen xs rest)
    (hp : F.parse rest = .complete n) : F.Cuts seen (xs ++ [rest.take n]) (rest.drop n) := by
  induction h with
  | nil seen => exact .cons hp (.nil _)
  | cons hp' hrest ih => exact .cons hp' (ih hp)

/-- When no complete frame is left, every other cut stops earlier. -/
theorem Cuts.longest {seen rest rest' : List α} {xs ys : List (List α)} (h : F.Cuts seen xs rest)
    (hrest : ∀ n, F.parse rest ≠ .complete n) (h' : F.Cuts seen ys rest') : ys <+: xs := by
  induction h generalizing ys with
  | nil seen =>
    cases h' with
    | nil => exact List.prefix_rfl
    | cons hp' _ => exact absurd hp' (hrest _)
  | cons hp _ ih =>
    cases h' with
    | nil => exact List.nil_prefix
    | cons hp' htail =>
      cases hp.symm.trans hp'
      exact (List.prefix_cons_inj _).mpr (ih hrest htail)

/-- **What is cut off a stream are its first frames.** -/
theorem Stream.of_cuts {xs ys : List (List α)} {tail seen unseen rest : List α}
    (h : F.Stream xs tail) (hs : seen ++ unseen = xs.flatten ++ tail)
    (hcuts : F.Cuts seen ys rest) :
    ∃ zs, xs = ys ++ zs ∧ rest ++ unseen = zs.flatten ++ tail := by
  induction hcuts generalizing xs with
  | nil seen => exact ⟨xs, rfl, hs⟩
  | cons hp _ ih =>
    obtain ⟨x, xs', rfl, hx, hrest⟩ := h.parse_complete hs hp
    have happend : F.Stream ([x] ++ xs') tail := h
    obtain ⟨zs, rfl, hzs⟩ := ih happend.of_append hrest
    exact ⟨zs, by rw [hx]; rfl, hzs⟩

end Framer

end MpRpc
