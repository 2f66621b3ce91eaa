import Mathlib
import MpRpc.Execution

/-!
# Arguments — what a method is called with

What a call is to be: the user's function runs if the message brings as many
parameters as the function has and each of them converts, and then on the converted
values. The tuple adaptor that `params_as` goes through does not compare the numbers:
it takes default values for missing parameters and leaves out those that are too many.
-/

namespace MpRpc

open Msgpack

variable {A W : Type*}

/-- The values of as many parameters as there are parameter types. -/
def convertExactly : List (Param A) → List Object → Option (List A)
  | [], [] => some []
  | p :: ps, o :: os =>
      match p.convert o with
      | none => none
      | some a => (convertExactly ps os).map (a :: ·)
  | _, _ => none

/-- Conversion fails exactly at an element that is there and does not convert. -/
theorem convertParams_eq_none {ps : List (Param A)} {os : List Object} :
    convertParams ps os = none ↔ ∃ po ∈ ps.zip os, po.1.convert po.2 = none := by
  induction ps generalizing os with
  | nil => simp [convertParams]
  | cons p ps ih =>
    cases os with
    | nil =>
      have hrest := @ih []
      simpa [convertParams] using hrest
    | cons o os =>
      rw [convertParams, List.zip_cons_cons]
      cases hconvert : p.convert o with
      | none => simp [hconvert]
      | some a => simp [hconvert, ih]

theorem convertExactly_of_length_eq {ps : List (Param A)} {os : List Object}
    (h : os.length = ps.length) : convertExactly ps os = convertParams ps os := by
  induction ps generalizing os with
  | nil =>
    obtain rfl := List.eq_nil_of_length_eq_zero h
    rfl
  | cons p ps ih =>
    cases os with
    | nil => cases h
    | cons o os =>
      have hrest := ih (Nat.succ.inj h)
      cases hconvert : p.convert o with
      | none => simp only [convertExactly, convertParams, hconvert]
      | some a => simp only [convertExactly, convertParams, hconvert, hrest]

theorem convertExactly_of_length_ne {ps : List (Param A)} {os : List Object}
    (h : os.length ≠ ps.length) : convertExactly ps os = none := by
  induction ps generalizing os with
  | nil =>
    cases os with
    | nil => exact absurd rfl h
    | cons o os => rfl
  | cons p ps ih =>
    cases os with
    | nil => rfl
    | cons o os =>
      have hrest : os.length ≠ ps.length := fun heq => h (congrArg Nat.succ heq)
      rw [convertExactly]
      split
      · rfl
      · rw [ih hrest, Option.map_none]

/-- The adaptor converts as it should if the numbers agree or an element fails. -/
theorem convertParams_eq_convertExactly_iff {ps : List (Param A)} {os : List Object} :
    convertParams ps os = convertExactly ps os ↔
      os.length = ps.length ∨ ∃ po ∈ ps.zip os, po.1.convert po.2 = none := by
  by_cases hlength : os.length = ps.length
  · exact iff_of_true (convertExactly_of_length_eq hlength).symm (.inl hlength)
  · rw [convertExactly_of_length_ne hlength, convertParams_eq_none]
    exact (or_iff_right hlength).symm

namespace MethodExecutor

/-- The call that is to be made for the parameters. -/
def expected (m : MethodExecutor A W) (w : W) (params : List Object) : Option (Invocation A) :=
  (convertExactly m.params params).map fun args => ⟨m.name, args, m.function w args⟩

/-- A request and a notification with these parameters lead to the call that is to be
made, and to no other; without a call a request is answered with an error. -/
structure CallsAsSent (m : MethodExecutor A W) (w : W) (msg : Message) (params : List Object) :
    Prop where
  request : (m.processRequest w msg).1 = m.expected w params
  notification : m.processNotification w msg = m.expected w params
  errorResponse : (m.processRequest w msg).1 = none →
    ∃ error, error ≠ .nil ∧ (m.processRequest w msg).2 = packErrorResponse msg.msgid error

theorem invoke_eq {m : MethodExecutor A W} {w : W} {msg : Message} {params : List Object}
    (hparams : msg.params = some (.array params)) :
    m.invoke w msg =
      (convertParams m.params params).map fun args => ⟨m.name, args, m.function w args⟩ := by
  simp only [invoke, paramsAs, hparams]

theorem invoke_eq_expected_iff {m : MethodExecutor A W} {w : W} {msg : Message}
    {params : List Object} (hparams : msg.params = some (.array params)) :
    m.invoke w msg = m.expected w params ↔
      convertParams m.params params = convertExactly m.params params := by
  rw [invoke_eq hparams, expected]
  constructor
  · intro h
    have hargs := congrArg (Option.map Invocation.args) h
    simpa [Option.map_map, Function.comp_def] using hargs
  · intro h
    rw [h]

/-- **When a method runs only on the arguments it was sent**: the message has as many
parameters as the function, or one that stands at the place of a parameter of the
function does not convert. -/
theorem callsAsSent_iff {m : MethodExecutor A W} {w : W} {msg : Message} {params : List Object}
    (hparams : msg.params = some (.array params)) :
    m.CallsAsSent w msg params ↔
      params.length = m.params.length ∨
        ∃ po ∈ m.params.zip params, po.1.convert po.2 = none := by
  rw [← convertParams_eq_convertExactly_iff, ← invoke_eq_expected_iff (w := w) hparams]
  constructor
  · intro h
    exact h.request
  · intro h
    refine ⟨h, h, ?_⟩
    intro hnone
    have hinvoke : m.invoke w msg = none := hnone
    refine ⟨.str (ascii "failed to convert parameters"), ?_, ?_⟩
    · intro heq
      cases heq
    · rw [processRequest, hinvoke, respond]

/-- A function of two numbers that returns nothing. -/
def transfer : MethodExecutor Msgid Unit where
  name := ascii "transfer"
  params := [⟨asMsgid, 0⟩, ⟨asMsgid, 0⟩]
  function _ _ := .returned ⟨.nil, Object.packable_nil⟩

theorem callsAsSent_iff_transfer :
    (Message.request 7 (ascii "transfer") [.positiveInteger 5]).params =
        some (.array [.positiveInteger 5]) ∧
      (transfer.CallsAsSent () (Message.request 7 (ascii "transfer") [.positiveInteger 5])
          [.positiveInteger 5] ↔
        [Object.positiveInteger 5].length = transfer.params.length ∨
          ∃ po ∈ transfer.params.zip [.positiveInteger 5], po.1.convert po.2 = none) :=
  ⟨rfl, callsAsSent_iff rfl⟩

/-- With one parameter the function is called on that and on zero. -/
theorem missing_argument_is_default :
    ((transfer.processRequest () (Message.request 7 (ascii "transfer") [.positiveInteger 5])).1.map
        Invocation.args) = some [5, 0] ∧
      ¬ transfer.CallsAsSent () (Message.request 7 (ascii "transfer") [.positiveInteger 5])
        [.positiveInteger 5] := by
  refine ⟨rfl, ?_⟩
  intro h
  cases h.request

end MethodExecutor

end MpRpc
