import MpRpc.FormatMessage.Rendering

/-!
# Limit — how long the text of a message gets

A callback appends first and checks the length afterwards. It goes on only while
four characters of the limit are free behind the text, so that the mark `" ..."`
fits; but the piece it appends may be of any length, and the mark comes behind it.
The text exceeds the limit exactly when a piece ends less than four characters
before the limit, or behind it; that is, when the text of the events without a limit
does not stop four characters before the limit on its way past it.
-/

namespace MpRpc

open Msgpack

namespace FormattingVisitor

variable {lenLimit : Nat} {msg : Bytes}

/-! ## What a callback appends -/

/-- The number of characters that the callback for a value appends. -/
def scalarGrowth (floats : FloatFormat) (lenLimit : Nat) : Scalar → Nat
  | .nil => 3
  | .boolean value => if value then 4 else 5
  | .positiveInteger value => (formatInteger value.toNat).length
  | .negativeInteger k => (formatInteger (-1 - k.val)).length
  | .float32 bits => (floats.float32 bits).length
  | .float64 bits => (floats.float64 bits).length
  | .str ptr => ptr.length % 2 ^ 32 + 2
  | .bin ptr => 2 * min (ptr.length % 2 ^ 32) (lenLimit / 2) + 5
  | .ext _ ptr => 2 * min ((ptr.length + 1) % 2 ^ 32) (lenLimit / 2) + 5

/-- The number of characters that a callback appends; a closing bracket takes the
place of a comma. -/
def growth (floats : FloatFormat) (lenLimit : Nat) (msg : Bytes) : Event → Nat
  | .scalar s => scalarGrowth floats lenLimit s
  | .startArray _ | .endArrayItem | .startMap _ | .endMapKey | .endMapValue => 1
  | .endArray | .endMap => if msg.getLast? = some 0x2c then 0 else 1
  | .startArrayItem | .startMapKey | .startMapValue => 0

/-- The callback appends a piece that leaves less than four characters of the limit. -/
def Overruns (floats : FloatFormat) (lenLimit : Nat) (msg : Bytes) (e : Event) : Prop :=
  refusesEvent lenLimit msg e = false ∧ lenLimit < msg.length + growth floats lenLimit msg e + 4

theorem length_popComma (msg : Bytes) (bracket : UInt8) :
    (popComma msg ++ [bracket]).length =
      msg.length + if msg.getLast? = some 0x2c then 0 else 1 := by
  unfold popComma
  split
  · rename_i hlast
    have hne : msg ≠ [] := by
      intro hnil
      rw [hnil] at hlast
      cases hlast
    have hpos := List.length_pos_iff.mpr hne
    rw [List.length_append, List.length_dropLast, List.length_singleton]
    omega
  · rw [List.length_append, List.length_singleton]

theorem length_counted (ptr : Bytes) : (counted ptr).length = ptr.length % 2 ^ 32 := by
  rw [counted, List.length_take, Nat.min_eq_left (Nat.mod_le ptr.length _)]

/-- A hex dump that the limit cuts is too long with and without the cut. -/
theorem scalarGrowth_long_iff (floats : FloatFormat) (lenLimit : Nat) (msg : Bytes) (s : Scalar) :
    lenLimit < msg.length + scalarGrowth floats lenLimit s + 4 ↔
      lenLimit < (msg ++ renderCounted floats s).length + 4 := by
  have hquote : (ascii "\"").length = 1 := rfl
  have hhex : (ascii "hex(").length = 4 := rfl
  have hext : (ascii "ext(").length = 4 := rfl
  have hparen : (ascii ")").length = 1 := rfl
  cases s with
  | boolean value => cases value <;> rw [List.length_append] <;> rfl
  | str ptr =>
    simp only [scalarGrowth, renderCounted, List.length_append, length_counted, hquote]
    omega
  | bin ptr =>
    simp only [scalarGrowth, renderCounted, List.length_append, length_upperHex, length_counted,
      hhex, hparen]
    omega
  | ext type ptr =>
    simp only [scalarGrowth, renderCounted, List.length_append, length_upperHex, length_counted,
      List.length_cons, hext, hparen]
    omega
  | _ =>
    rw [List.length_append]
    rfl

/-- **An overrun** is one of the text without a limit. -/
theorem overruns_iff (floats : FloatFormat) (lenLimit : Nat) (msg : Bytes) (e : Event) :
    Overruns floats lenLimit msg e ↔ refusesEvent lenLimit msg e = false ∧
      lenLimit < (renderEvent floats msg e).length + 4 := by
  refine and_congr_right fun _ => ?_
  cases e with
  | scalar s => exact scalarGrowth_long_iff floats lenLimit msg s
  | endArray =>
    rw [growth, ← length_popComma msg 0x5d]
    rfl
  | endMap =>
    rw [growth, ← length_popComma msg 0x7d]
    rfl
  | startArrayItem | startMapKey | startMapValue => exact Iff.rfl
  | _ =>
    rw [renderEvent, List.length_append]
    rfl

/-! ## What a callback does with room for the mark -/

theorem visit_of_refused {floats : FloatFormat} {e : Event}
    (hrefuses : refusesEvent lenLimit msg e = true) :
    visit floats lenLimit msg e = (false, msg ++ ascii " ...") := by
  rcases visit_eq floats lenLimit msg e with ⟨-, hno, -⟩ | ⟨text, hvisit, -⟩
  · rw [hrefuses] at hno
    cases hno
  · rw [hvisit, if_pos hrefuses]

theorem exists_visit_eq_checkLength (floats : FloatFormat) (hroom : msg.length + 4 < lenLimit)
    {e : Event} (hrefuses : refusesEvent lenLimit msg e = false) :
    ∃ text, visit floats lenLimit msg e = checkLength lenLimit text ∧
      Matches lenLimit text (renderEvent floats msg e) := by
  rcases visit_eq floats lenLimit msg e with ⟨hvisit, -, hsame⟩ | ⟨text, hvisit, hmatches⟩
  · refine ⟨msg, ?_, .inl hsame.symm⟩
    rw [hvisit, checkLength, if_neg (by omega)]
  · rw [hrefuses, if_neg Bool.false_ne_true] at hvisit
    exact ⟨text, hvisit, hmatches⟩

/-! ## The whole text -/

/-- **The text of all callbacks**: within the limit if none of them overruns it;
otherwise the first that does ends the parsing with a text that is too long. -/
theorem length_visitAll (floats : FloatFormat) (hroom : msg.length + 4 < lenLimit)
    (es : List Event) :
    ((machine floats lenLimit).EachStep (fun msg e => ¬ Overruns floats lenLimit msg e) msg es ∧
        (visitAll floats lenLimit msg es).2.length ≤ lenLimit) ∨
      (¬ (machine floats lenLimit).EachStep (fun msg e => ¬ Overruns floats lenLimit msg e) msg es ∧
        (visitAll floats lenLimit msg es).1 = false ∧
        lenLimit < (visitAll floats lenLimit msg es).2.length) := by
  have hmark : (ascii " ...").length = 4 := rfl
  induction es generalizing msg with
  | nil =>
    refine .inl ⟨trivial, ?_⟩
    show msg.length ≤ lenLimit
    omega
  | cons e es ih =>
    simp only [visitAll, Machine.EachStep, machine]
    cases hrefuses : refusesEvent lenLimit msg e with
    | true =>
      have hvisit : visit floats lenLimit msg e = (false, msg ++ ascii " ...") :=
        visit_of_refused hrefuses
      refine .inl ⟨⟨?_, ?_⟩, ?_⟩
      · intro hover
        rw [hover.1] at hrefuses
        cases hrefuses
      · simp [hvisit]
      · simp only [hvisit, List.length_append, hmark]
        omega
    | false =>
      obtain ⟨text, hvisit, hmatches⟩ := exists_visit_eq_checkLength floats hroom hrefuses
      have hover : Overruns floats lenLimit msg e ↔ lenLimit < text.length + 4 := by
        rw [overruns_iff, hmatches.long_iff, and_iff_right hrefuses]
      by_cases hshort : text.length + 4 < lenLimit
      · have hgoes : visit floats lenLimit msg e = (true, text) := by
          rw [hvisit, checkLength, if_neg (by omega)]
        have hfits : ¬ Overruns floats lenLimit msg e := by
          rw [hover]
          omega
        simp only [hgoes, Option.some.injEq, forall_eq', hfits, not_false_eq_true, true_and]
        exact ih hshort
      · have hends : visit floats lenLimit msg e = (false, text ++ ascii " ...") := by
          rw [hvisit, checkLength, if_pos (by omega)]
        simp only [hends, List.length_append, hmark, hover]
        by_cases hlong : lenLimit < text.length + 4
        · exact .inr ⟨fun h => h.1 hlong, trivial, hlong⟩
        · exact .inl ⟨⟨hlong, by simp⟩, by omega⟩

/-! ## The text without a limit -/

/-- When a callback goes on. -/
theorem step_iff (floats : FloatFormat) (hroom : msg.length + 4 < lenLimit) (e : Event)
    (out : Bytes) :
    (machine floats lenLimit).step msg e = some out ↔ refusesEvent lenLimit msg e = false ∧
      out = renderEvent floats msg e ∧ out.length + 4 < lenLimit := by
  rw [step_eq_some]
  cases hrefuses : refusesEvent lenLimit msg e with
  | true => simp [visit_of_refused hrefuses]
  | false =>
    obtain ⟨text, hvisit, hmatches⟩ := exists_visit_eq_checkLength floats hroom hrefuses
    rw [hvisit, eq_self, true_and]
    constructor
    · intro h
      obtain ⟨rfl, hshort⟩ := checkLength_eq_true h
      exact ⟨hmatches.resolve_right fun hlong => by omega, hshort⟩
    · rintro ⟨rfl, hshort⟩
      obtain rfl := hmatches.resolve_right fun hlong => by omega
      rw [checkLength, if_neg (by omega)]

theorem length_le_renderEvent (floats : FloatFormat) (text : Bytes) (e : Event) :
    text.length ≤ (renderEvent floats text e).length := by
  have hpop : ∀ bracket : UInt8, text.length ≤ (popComma text ++ [bracket]).length := by
    intro bracket
    rw [length_popComma]
    exact Nat.le_add_right _ _
  cases e with
  | startArrayItem | startMapKey | startMapValue => exact Nat.le_refl _
  | endArray => exact hpop _
  | endMap => exact hpop _
  | _ =>
    rw [renderEvent, List.length_append]
    exact Nat.le_add_right _ _

theorem length_le_foldl_renderEvent (floats : FloatFormat) (text : Bytes) (es : List Event) :
    text.length ≤ (es.foldl (renderEvent floats) text).length := by
  induction es generalizing text with
  | nil => exact Nat.le_refl _
  | cons e es ih => exact (length_le_renderEvent floats text e).trans (ih _)

/-- No size test refuses a value, when the events are written behind `text`. -/
def NoneRefused (floats : FloatFormat) (lenLimit : Nat) : Bytes → List Event → Prop
  | _, [] => True
  | text, e :: es =>
      refusesEvent lenLimit text e = false ∧
        NoneRefused floats lenLimit (renderEvent floats text e) es

theorem noneRefused_concat {text : Bytes} {es : List Event} {e : Event} {floats : FloatFormat} :
    NoneRefused floats lenLimit text (es ++ [e]) ↔ NoneRefused floats lenLimit text es ∧
      refusesEvent lenLimit (es.foldl (renderEvent floats) text) e = false := by
  induction es generalizing text with
  | nil => simp [NoneRefused]
  | cons x es ih =>
    simp only [List.cons_append, NoneRefused, ih, List.foldl_cons]
    exact and_assoc.symm

/-- **When the visitor goes on**: no size test refuses, and the text is short. -/
theorem run_iff (floats : FloatFormat) (hroom : msg.length + 4 < lenLimit) (es : List Event)
    (out : Bytes) :
    (machine floats lenLimit).run msg es = some out ↔ NoneRefused floats lenLimit msg es ∧
      out = es.foldl (renderEvent floats) msg ∧ out.length + 4 < lenLimit := by
  induction es generalizing msg with
  | nil =>
    simp only [Machine.run_nil, Option.some.injEq, NoneRefused, List.foldl_nil, true_and]
    constructor
    · rintro rfl
      exact ⟨rfl, hroom⟩
    · rintro ⟨rfl, -⟩
      rfl
  | cons e es ih =>
    rw [Machine.run_cons, NoneRefused, List.foldl_cons]
    constructor
    · rintro ⟨text, hstep, hrun⟩
      obtain ⟨hrefuses, rfl, hshort⟩ := (step_iff floats hroom e text).mp hstep
      obtain ⟨hnone, hout⟩ := (ih hshort).mp hrun
      exact ⟨⟨hrefuses, hnone⟩, hout⟩
    · rintro ⟨⟨hrefuses, hnone⟩, rfl, hshort⟩
      -- the text does not become shorter on the way
      have hle := length_le_foldl_renderEvent floats (renderEvent floats msg e) es
      have hnext : (renderEvent floats msg e).length + 4 < lenLimit := by omega
      exact ⟨_, (step_iff floats hroom e _).mpr ⟨hrefuses, rfl, hnext⟩,
        (ih hnext).mpr ⟨hnone, rfl, hshort⟩⟩

/-- An event takes the text without a limit past the last four characters before the
limit, from a place in front of them. -/
def PassesLimit (floats : FloatFormat) (lenLimit : Nat) (before : List Event) (e : Event) : Prop :=
  NoneRefused floats lenLimit [] (before ++ [e]) ∧
    (renderEvents floats before).length + 4 < lenLimit ∧
    lenLimit < (renderEvents floats (before ++ [e])).length + 4

/-- **No callback overruns** exactly if no event passes the limit. -/
theorem eachStep_not_overruns_iff (floats : FloatFormat) (hlimit : 4 < lenLimit)
    (es : List Event) :
    (machine floats lenLimit).EachStep (fun msg e => ¬ Overruns floats lenLimit msg e) [] es ↔
      ∀ before e after, es = before ++ e :: after → ¬ PassesLimit floats lenLimit before e := by
  have hroom : ([] : Bytes).length + 4 < lenLimit := by simpa using hlimit
  rw [Machine.eachStep_iff_forall_split]
  constructor
  · rintro h before e after hsplit ⟨hnone, hshort, hlong⟩
    obtain ⟨hbefore, hrefuses⟩ := noneRefused_concat.mp hnone
    refine h before e after _ hsplit ((run_iff floats hroom before _).mpr ⟨hbefore, rfl, hshort⟩) ?_
    refine (overruns_iff floats lenLimit _ e).mpr ⟨hrefuses, ?_⟩
    rwa [renderEvents, List.foldl_append] at hlong
  · intro h before e after text hsplit hrun hover
    obtain ⟨hbefore, rfl, hshort⟩ := (run_iff floats hroom before text).mp hrun
    obtain ⟨hrefuses, hlong⟩ := (overruns_iff floats lenLimit _ e).mp hover
    refine h before e after hsplit ⟨noneRefused_concat.mpr ⟨hbefore, hrefuses⟩, hshort, ?_⟩
    rwa [renderEvents, List.foldl_append]

end FormattingVisitor

open FormattingVisitor

/-- What stands for data that is no msgpack object fits a limit of 14. -/
theorem length_invalidData (data : MessageData) {lengthLimit : Nat} (h : 14 ≤ lengthLimit) :
    (invalidData data lengthLimit).length ≤ lengthLimit := by
  have hname : (ascii "invalid_data(").length = 13 := rfl
  have hparen : (ascii ")").length = 1 := rfl
  simp only [invalidData, List.length_append, hname, hparen, length_formatHex]
  omega

/-- **When the limit is respected**: exactly if no callback appends a piece that leaves
less than four characters of the limit; that is, if no event takes the text of the events
parsed so far past that place. -/
theorem length_formatMessage_le_iff (floats : FloatFormat) (data : MessageData) {lengthLimit : Nat}
    (h : 14 ≤ lengthLimit) :
    ((formatMessage floats data lengthLimit).length ≤ lengthLimit ↔
      (FormattingVisitor.machine floats lengthLimit).EachStep
        (fun msg e => ¬ Overruns floats lengthLimit msg e) [] (parseEvents data).1) ∧
    ((formatMessage floats data lengthLimit).length ≤ lengthLimit ↔
      ∀ before e after, (parseEvents data).1 = before ++ e :: after →
        ¬ PassesLimit floats lengthLimit before e) := by
  rw [← eachStep_not_overruns_iff floats (by omega), and_self]
  have hroom : ([] : Bytes).length + 4 < lengthLimit := by
    rw [List.length_nil]
    omega
  unfold formatMessage
  rcases length_visitAll floats hroom (parseEvents data).1 with
    ⟨hfits, hle⟩ | ⟨hover, hends, hlong⟩
  · refine iff_of_true ?_ hfits
    split
    · rename_i hvisit
      rwa [hvisit] at hle
    · rename_i hvisit
      rw [hvisit] at hle
      split
      · exact hle
      · exact length_invalidData data h
      · exact length_invalidData data h
  · refine iff_of_false ?_ hover
    split
    · rename_i hvisit
      rw [hvisit] at hlong
      exact Nat.not_le_of_lt hlong
    · rename_i hvisit
      rw [hvisit] at hends
      cases hends

/-- A binary object of 50 bytes. -/
def fiftyBytes : MessageData := pack (.bin (List.replicate 50 0))

theorem length_formatMessage_le_iff_fiftyBytes :
    14 ≤ 100 ∧ ¬ (FormattingVisitor.machine oneFormat 100).EachStep
        (fun msg e => ¬ Overruns oneFormat 100 msg e) [] (parseEvents fiftyBytes).1 ∧
      ∃ before e after, (parseEvents fiftyBytes).1 = before ++ e :: after ∧
        PassesLimit oneFormat 100 before e := by
  have hlimit : 14 ≤ 100 := by decide
  obtain ⟨hvisitor, hrendering⟩ := length_formatMessage_le_iff oneFormat fiftyBytes hlimit
  have hlong : ¬ (formatMessage oneFormat fiftyBytes 100).length ≤ 100 := by decide +kernel
  rw [hvisitor] at hlong
  refine ⟨hlimit, hlong, ?_⟩
  rw [← hvisitor, hrendering] at hlong
  simpa only [not_forall, not_not, exists_prop] using hlong

/-- Twice the size is within the limit, and so the 100 digits are written out, between
`hex(` and `)` and with the mark behind. -/
theorem fiftyBytes_exceed_limit :
    14 ≤ 100 ∧ (formatMessage oneFormat fiftyBytes 100).length = 109 ∧
      ¬ (formatMessage oneFormat fiftyBytes 100).length ≤ 100 := by
  have hlength : (formatMessage oneFormat fiftyBytes 100).length = 109 := by decide +kernel
  exact ⟨by decide, hlength, by rw [hlength]; decide⟩

end MpRpc
