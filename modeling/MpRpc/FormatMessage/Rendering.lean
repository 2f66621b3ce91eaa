import Mathlib
import MpRpc.FormatMessage
import MpRpc.Machine

/-!
# Rendering — what the text of a message says

The text of an object by recursion over the object, and that the visitor writes
just this text as long as none of its callbacks ends the parsing. The visitor sees a
flat sequence of events and puts a comma behind every element; the closing bracket
takes the last one away again. `renderEvents` is the text of a sequence of events
without a limit: the visitor writes it, and for an object it is the text of the object.
-/

namespace MpRpc

open Msgpack FormattingVisitor

/-! ## The text of an object -/

/-- The upper-case hexadecimal digit of a number below 16. -/
def upperHexDigit (n : Nat) : UInt8 :=
  UInt8.ofNat (if n < 10 then '0'.toNat + n else 'A'.toNat + (n - 10))

/-- All bytes, each as two digits. -/
def upperHex (bytes : Bytes) : Bytes :=
  bytes.flatMap fun b => [upperHexDigit (b.toNat / 16), upperHexDigit (b.toNat % 16)]

def renderScalar (floats : FloatFormat) : Scalar → Bytes
  | .nil => ascii "nil"
  | .boolean value => if value then ascii "true" else ascii "false"
  | .positiveInteger value => formatInteger value.toNat
  | .negativeInteger k => formatInteger (-1 - k.val)
  | .float32 bits => floats.float32 bits
  | .float64 bits => floats.float64 bits
  | .str s => ascii "\"" ++ s ++ ascii "\""
  | .bin s => ascii "hex(" ++ upperHex s ++ ascii ")"
  | .ext type s => ascii "ext(" ++ upperHex (type :: s) ++ ascii ")"

mutual
/-- The text of an object: elements and pairs stand between brackets, with one comma
between two of them. -/
def render (floats : FloatFormat) : Object → Bytes
  | .scalar s => renderScalar floats s
  | .array xs => ascii "[" ++ (ascii ",").intercalate (renderItems floats xs) ++ ascii "]"
  | .map kvs => ascii "\x7b" ++ (ascii ",").intercalate (renderPairs floats kvs) ++ ascii "\x7d"

def renderItems (floats : FloatFormat) : List Object → List Bytes
  | [] => []
  | x :: xs => render floats x :: renderItems floats xs

def renderPairs (floats : FloatFormat) : List (Object × Object) → List Bytes
  | [] => []
  | (k, v) :: kvs => (render floats k ++ ascii ":" ++ render floats v) :: renderPairs floats kvs
end

/-! ## The text of events -/

/-- The bytes that the visitor is told of: their number has 32 bits. -/
def counted (ptr : Bytes) : Bytes := ptr.take (ptr.length % 2 ^ 32)

def renderCounted (floats : FloatFormat) : Scalar → Bytes
  | .str ptr => ascii "\"" ++ counted ptr ++ ascii "\""
  | .bin ptr => ascii "hex(" ++ upperHex (counted ptr) ++ ascii ")"
  | .ext type ptr => ascii "ext(" ++ upperHex (counted (type :: ptr)) ++ ascii ")"
  | s => renderScalar floats s

/-- The text after an event. -/
def renderEvent (floats : FloatFormat) (text : Bytes) : Event → Bytes
  | .scalar s => text ++ renderCounted floats s
  | .startArray _ => text ++ ascii "["
  | .endArrayItem => text ++ ascii ","
  | .endArray => popComma text ++ ascii "]"
  | .startMap _ => text ++ ascii "\x7b"
  | .endMapKey => text ++ ascii ":"
  | .endMapValue => text ++ ascii ","
  | .endMap => popComma text ++ ascii "\x7d"
  | .startArrayItem | .startMapKey | .startMapValue => text

def renderEvents (floats : FloatFormat) (es : List Event) : Bytes :=
  es.foldl (renderEvent floats) []

/-- The size that `visit_ext` is given counts the type byte, and is a 32-bit number. -/
def Msgpack.Token.ExtCounted : Token → Prop
  | .scalar (.ext _ s) => s.length + 1 < 2 ^ 32
  | _ => True

theorem counted_of_lt {ptr : Bytes} (h : ptr.length < 2 ^ 32) : counted ptr = ptr := by
  rw [counted, Nat.mod_eq_of_lt h, List.take_length]

theorem renderCounted_eq {floats : FloatFormat} {s : Scalar} (hsized : (Token.scalar s).Sized)
    (hext : (Token.scalar s).ExtCounted) : renderCounted floats s = renderScalar floats s := by
  cases s with
  | str ptr => rw [renderCounted, renderScalar, counted_of_lt hsized]
  | bin ptr => rw [renderCounted, renderScalar, counted_of_lt hsized]
  | ext type ptr =>
    have hlt : (type :: ptr).length < 2 ^ 32 := hext
    rw [renderCounted, renderScalar, counted_of_lt hlt]
  | _ => rfl

/-! ## Containers -/

theorem intercalate_concat (sep : Bytes) (init : List Bytes) (last : Bytes) :
    sep.intercalate (init ++ [last]) = init.flatMap (· ++ sep) ++ last := by
  induction init with
  | nil => simp
  | cons x init ih =>
    have hne : init ++ [last] ≠ [] := by simp
    rw [List.cons_append, List.intercalate_cons_of_ne_nil hne, ih, List.flatMap_cons]
    simp only [List.append_assoc]

/-- Elements with a comma behind each, without the last comma: the elements with a
comma between two of them. -/
theorem popComma_flatMap {front : Bytes} (hfront : front.getLast? ≠ some 0x2c)
    (done : List Bytes) :
    popComma (front ++ done.flatMap (· ++ ascii ",")) = front ++ (ascii ",").intercalate done := by
  have hcomma : ascii "," = [0x2c] := by decide
  rcases List.eq_nil_or_concat done with rfl | ⟨init, last, rfl⟩
  · simp [popComma, hfront]
  · rw [List.concat_eq_append, intercalate_concat, hcomma]
    simp only [popComma, List.flatMap_append, List.flatMap_singleton]
    rw [← List.append_assoc, ← List.append_assoc, List.getLast?_concat, if_pos rfl,
      List.dropLast_concat, List.append_assoc]

section

variable {floats : FloatFormat}

mutual
/-- **The text of the events of an object** is that of the object, behind what is there. -/
theorem foldl_renderEvent_object (o : Object) (hsized : ∀ t ∈ o.tokens, t.Sized)
    (hext : ∀ t ∈ o.tokens, t.ExtCounted) (text : Bytes) :
    o.events.foldl (renderEvent floats) text = text ++ render floats o := by
  match o with
  | .scalar s =>
    exact congrArg (text ++ ·)
      (renderCounted_eq (hsized _ List.mem_cons_self) (hext _ List.mem_cons_self))
  | .array xs =>
    simp only [Object.tokens, List.forall_mem_cons] at hsized hext
    have hlast : (text ++ ascii "[").getLast? ≠ some 0x2c := by
      show (text ++ [0x5b]).getLast? ≠ some 0x2c
      rw [List.getLast?_concat]
      decide
    have htext := foldl_renderEvent_items xs hsized.2 hext.2 hlast []
    simpa [Object.events, renderEvent, render] using htext
  | .map kvs =>
    simp only [Object.tokens, List.forall_mem_cons] at hsized hext
    have hlast : (text ++ ascii "\x7b").getLast? ≠ some 0x2c := by
      show (text ++ [0x7b]).getLast? ≠ some 0x2c
      rw [List.getLast?_concat]
      decide
    have htext := foldl_renderEvent_pairs kvs hsized.2 hext.2 hlast []
    simpa [Object.events, renderEvent, render] using htext

/-- Inside an array, with the texts of the elements that are `done`. -/
theorem foldl_renderEvent_items (xs : List Object) (hsized : ∀ t ∈ listTokens xs, t.Sized)
    (hext : ∀ t ∈ listTokens xs, t.ExtCounted) {front : Bytes}
    (hfront : front.getLast? ≠ some 0x2c) (done : List Bytes) :
    (arrayEvents xs).foldl (renderEvent floats) (front ++ done.flatMap (· ++ ascii ",")) =
      front ++ (ascii ",").intercalate (done ++ renderItems floats xs) ++ ascii "]" := by
  match xs with
  | [] =>
    rw [renderItems, List.append_nil, ← popComma_flatMap hfront]
    rfl
  | x :: xs =>
    simp only [listTokens, List.mem_append, or_imp, forall_and] at hsized hext
    have htext := foldl_renderEvent_items xs hsized.2 hext.2 hfront (done ++ [render floats x])
    simpa [arrayEvents, renderEvent, renderItems, foldl_renderEvent_object x hsized.1 hext.1]
      using htext

/-- Inside a map, with the texts of the pairs that are `done`. -/
theorem foldl_renderEvent_pairs (kvs : List (Object × Object))
    (hsized : ∀ t ∈ pairTokens kvs, t.Sized) (hext : ∀ t ∈ pairTokens kvs, t.ExtCounted)
    {front : Bytes} (hfront : front.getLast? ≠ some 0x2c) (done : List Bytes) :
    (mapEvents kvs).foldl (renderEvent floats) (front ++ done.flatMap (· ++ ascii ",")) =
      front ++ (ascii ",").intercalate (done ++ renderPairs floats kvs) ++ ascii "\x7d" := by
  match kvs with
  | [] =>
    rw [renderPairs, List.append_nil, ← popComma_flatMap hfront]
    rfl
  | (k, v) :: kvs =>
    simp only [pairTokens, List.mem_append, or_imp, forall_and] at hsized hext
    have htext := foldl_renderEvent_pairs kvs hsized.2.2 hext.2.2 hfront
      (done ++ [render floats k ++ ascii ":" ++ render floats v])
    simpa [mapEvents, renderEvent, renderPairs, foldl_renderEvent_object k hsized.1 hext.1,
      foldl_renderEvent_object v hsized.2.1 hext.2.1] using htext
end

end

/-! ## One callback -/

theorem hexDigits_eq (b : UInt8) :
    hexDigits b = [upperHexDigit (b.toNat / 16), upperHexDigit (b.toNat % 16)] := by
  have hall : ∀ n < 256, hexDigits (UInt8.ofNat n) =
      [upperHexDigit (n / 16), upperHexDigit (n % 16)] := by decide +kernel
  have h := hall b.toNat b.toNat_lt
  rwa [UInt8.ofNat_toNat] at h

theorem length_hexDigits (value : UInt8) : (hexDigits value).length = 2 := rfl

theorem length_formatHex (ptr : Bytes) (size limit : Nat) :
    (formatHex ptr size limit).length = 2 * min (min size (limit / 2)) ptr.length := by
  simp only [formatHex, List.length_flatMap, length_hexDigits, List.map_const', List.sum_replicate,
    List.length_take, smul_eq_mul]
  omega

theorem length_upperHex (bytes : Bytes) : (upperHex bytes).length = 2 * bytes.length := by
  simp only [upperHex, List.length_flatMap, List.length_cons, List.length_nil, List.map_const',
    List.sum_replicate, smul_eq_mul]
  omega

/-- A hex dump that the limit does not cut. -/
theorem formatHex_eq {ptr : Bytes} {size limit : Nat} (hsize : size ≤ limit / 2) :
    formatHex ptr size limit = upperHex (ptr.take size) := by
  rw [formatHex, Nat.min_eq_left hsize, upperHex]
  exact congrArg (List.flatMap · (ptr.take size)) (funext hexDigits_eq)

namespace FormattingVisitor

variable {floats : FloatFormat} {lenLimit : Nat} {msg out : Bytes}

/-- The visitor from one callback to the next, as long as it goes on. -/
def machine (floats : FloatFormat) (lenLimit : Nat) : Machine Bytes Event where
  init := []
  step := fun msg e =>
    match visit floats lenLimit msg e with
    | (true, msg) => some msg
    | (false, _) => none

theorem step_eq_some {e : Event} :
    (machine floats lenLimit).step msg e = some out ↔
      visit floats lenLimit msg e = (true, out) := by
  simp only [machine]
  obtain ⟨goes, text⟩ := visit floats lenLimit msg e
  cases goes <;> simp

theorem checkLength_eq_true {text : Bytes} (h : checkLength lenLimit text = (true, out)) :
    out = text ∧ text.length + 4 < lenLimit := by
  unfold checkLength at h
  split at h
  · cases h
  · cases h
    exact ⟨rfl, by omega⟩

/-- The data are too long for the size test, and only the mark is appended. -/
def refusesEvent (lenLimit : Nat) (msg : Bytes) : Event → Bool
  | .scalar (.str ptr) => refuses lenLimit msg (UInt32.ofNat ptr.length)
  | .scalar (.bin ptr) => refuses lenLimit msg (UInt32.ofNat ptr.length)
  | .scalar (.ext _ ptr) => refuses lenLimit msg (UInt32.ofNat (ptr.length + 1))
  | _ => false

/-- The text of an event without a limit is this one, or both are too long. -/
def Matches (lenLimit : Nat) (text rendered : Bytes) : Prop :=
  text = rendered ∨ lenLimit < text.length + 4 ∧ lenLimit < rendered.length + 4

theorem Matches.long_iff {text rendered : Bytes} (h : Matches lenLimit text rendered) :
    lenLimit < text.length + 4 ↔ lenLimit < rendered.length + 4 := by
  rcases h with rfl | ⟨hlong, hlong'⟩
  · exact Iff.rfl
  · exact iff_of_true hlong hlong'

/-- A hex dump has all bytes, unless half of the limit is too few for them; and then the
dump fills the text. -/
theorem visitHex_eq (lenLimit : Nat) (name : String) (msg : Bytes) {ptr : Bytes} {size : UInt32}
    (hsize : size.toNat ≤ ptr.length) :
    ∃ text, visitHex lenLimit name msg ptr size =
        (if refuses lenLimit msg size then (false, msg ++ ascii " ...")
        else checkLength lenLimit text) ∧
      Matches lenLimit text
        (msg ++ (ascii name ++ upperHex (ptr.take size.toNat) ++ ascii ")")) := by
  refine ⟨_, rfl, ?_⟩
  by_cases hfits : size.toNat ≤ lenLimit / 2
  · refine .inl ?_
    rw [formatHex_eq hfits, List.append_assoc, List.append_assoc, List.append_assoc]
  · refine .inr ⟨?_, ?_⟩
    · simp only [List.length_append, length_formatHex]
      omega
    · simp only [List.length_append, length_upperHex, List.length_take]
      omega

theorem visitStr_eq (lenLimit : Nat) (msg ptr : Bytes) (size : UInt32) :
    ∃ text, visitStr lenLimit msg ptr size =
        (if refuses lenLimit msg size then (false, msg ++ ascii " ...")
        else checkLength lenLimit text) ∧
      Matches lenLimit text (msg ++ (ascii "\"" ++ ptr.take size.toNat ++ ascii "\"")) := by
  refine ⟨_, rfl, .inl ?_⟩
  rw [List.append_assoc, List.append_assoc, List.append_assoc]

theorem take_toNat_ofNat_length (ptr : Bytes) :
    ptr.take (UInt32.ofNat ptr.length).toNat = counted ptr := by
  rw [counted, UInt32.toNat_ofNat']

theorem toNat_ofNat_length_le (ptr : Bytes) : (UInt32.ofNat ptr.length).toNat ≤ ptr.length := by
  rw [UInt32.toNat_ofNat']
  exact Nat.mod_le ptr.length _

/-- **What a callback does**: it writes its event and checks the length, unless the size test
refuses the data or there is nothing to write. -/
theorem visit_eq (floats : FloatFormat) (lenLimit : Nat) (msg : Bytes) (e : Event) :
    (visit floats lenLimit msg e = (true, msg) ∧ refusesEvent lenLimit msg e = false ∧
        renderEvent floats msg e = msg) ∨
      ∃ text, visit floats lenLimit msg e =
          (if refusesEvent lenLimit msg e then (false, msg ++ ascii " ...")
          else checkLength lenLimit text) ∧
        Matches lenLimit text (renderEvent floats msg e) := by
  cases e with
  | startArrayItem | startMapKey | startMapValue => exact .inl ⟨rfl, rfl, rfl⟩
  | scalar s =>
    refine .inr ?_
    cases s with
    | boolean value => cases value <;> exact ⟨_, rfl, .inl rfl⟩
    | str ptr =>
      have h := visitStr_eq lenLimit msg ptr (UInt32.ofNat ptr.length)
      rwa [take_toNat_ofNat_length] at h
    | bin ptr =>
      have h := visitHex_eq lenLimit "hex(" msg (toNat_ofNat_length_le ptr)
      rwa [take_toNat_ofNat_length] at h
    | ext type ptr =>
      have h := visitHex_eq lenLimit "ext(" msg (toNat_ofNat_length_le (type :: ptr))
      rwa [take_toNat_ofNat_length] at h
    | _ => exact ⟨_, rfl, .inl rfl⟩
  | _ => exact .inr ⟨_, rfl, .inl rfl⟩

/-- **A callback that goes on** has written its event. -/
theorem eq_renderEvent_of_step {e : Event} (h : (machine floats lenLimit).step msg e = some out) :
    out = renderEvent floats msg e := by
  have hgoes := step_eq_some.mp h
  rcases visit_eq floats lenLimit msg e with ⟨hvisit, -, hsame⟩ | ⟨text, hvisit, hmatches⟩
  · cases hgoes.symm.trans hvisit
    exact hsame.symm
  · rw [hgoes] at hvisit
    split at hvisit
    · cases hvisit
    · obtain ⟨rfl, hshort⟩ := checkLength_eq_true hvisit.symm
      exact hmatches.resolve_right fun hlong => by omega

theorem eq_foldl_of_run {es : List Event} (h : (machine floats lenLimit).run msg es = some out) :
    out = es.foldl (renderEvent floats) msg := by
  induction es generalizing msg with
  | nil =>
    cases h
    rfl
  | cons e es ih =>
    obtain ⟨text, hstep, hrun⟩ := (Machine.run_cons _).mp h
    rw [List.foldl_cons, ← eq_renderEvent_of_step hstep]
    exact ih hrun

/-- Callbacks that all go on are a run of the visitor. -/
theorem run_eq_some {es : List Event} :
    (machine floats lenLimit).run msg es = some out ↔
      visitAll floats lenLimit msg es = (true, out) := by
  induction es generalizing msg with
  | nil => simp [visitAll]
  | cons e es ih =>
    rw [Machine.run_cons, visitAll]
    cases hvisit : visit floats lenLimit msg e with
    | mk goes text =>
      cases goes with
      | false => simp [step_eq_some, hvisit]
      | true => simp [step_eq_some, hvisit, ih]

end FormattingVisitor

/-! ## The text of a packed object -/

/-- **The text is that of the object** when no callback ends the parsing. -/
theorem formatMessage_pack (floats : FloatFormat) (lengthLimit : Nat) {o : Object}
    (hpackable : o.Packable) (hext : ∀ t ∈ o.tokens, t.ExtCounted)
    (hgoes : (visitAll floats lengthLimit [] (parseEvents (pack o)).1).1 = true) :
    formatMessage floats (pack o) lengthLimit = render floats o := by
  have hevents : parseEvents (pack o) = (o.events, .success []) := by
    simpa using parseEvents_pack hpackable []
  rw [hevents] at hgoes
  cases hvisit : visitAll floats lengthLimit [] o.events with
  | mk goes text =>
    rw [hvisit] at hgoes
    cases hgoes
    have htext := eq_foldl_of_run (run_eq_some.mpr hvisit)
    rw [foldl_renderEvent_object o hpackable hext, List.nil_append] at htext
    simp only [formatMessage, hevents, hvisit]
    exact htext

/-- The texts of `1.0`. -/
def oneFormat : FloatFormat where
  float32 _ := ascii "1.00000F"
  float64 _ := ascii "1.00000000000"

/-- A map with a comma at the end of a key and of an element, and with empty
containers. -/
def commas : Object :=
  .map [(.str (ascii "a,"), .array [.str (ascii ","), .array [], .map []]),
    (.positiveInteger 40, .bin [0x1f, 0xa9])]

theorem formatMessage_pack_commas :
    commas.Packable ∧ (∀ t ∈ commas.tokens, t.ExtCounted) ∧
      (visitAll oneFormat 100 [] (parseEvents (pack commas)).1).1 = true ∧
      formatMessage oneFormat (pack commas) 100 = render oneFormat commas := by
  have hext : ∀ t ∈ commas.tokens, t.ExtCounted := by
    simp [commas, Object.tokens, listTokens, pairTokens, Token.ExtCounted]
  have hgoes : (visitAll oneFormat 100 [] (parseEvents (pack commas)).1).1 = true := by
    decide +kernel
  exact ⟨by decide, hext, hgoes, formatMessage_pack oneFormat 100 (by decide) hext hgoes⟩

/-- The bytes of an extension and its type byte are `2 ^ 32`: the size is counted as
zero, and none of them is written. -/
theorem formatMessage_of_uncounted (type : UInt8) {s : Bytes} (hs : s.length + 1 = 2 ^ 32) :
    (Object.scalar (.ext type s)).Packable ∧
      (visitAll oneFormat 100 [] (parseEvents (pack (.scalar (.ext type s)))).1).1 = true ∧
      formatMessage oneFormat (pack (.scalar (.ext type s))) 100 ≠
        render oneFormat (.scalar (.ext type s)) := by
  have hpackable : (Object.scalar (.ext type s)).Packable := by
    simp only [Object.Packable, Object.tokens, List.mem_singleton, forall_eq, Token.Sized]
    omega
  have hevents : parseEvents (pack (.scalar (.ext type s))) =
      ([.scalar (.ext type s)], .success []) := by
    simpa [Object.events] using parseEvents_pack hpackable []
  have hsize : UInt32.ofNat (s.length + 1) = 0 := by
    rw [hs]
    rfl
  have hvisit : visitAll oneFormat 100 [] [.scalar (.ext type s)] = (true, ascii "ext()") := by
    simp only [visitAll, visit, visitScalar, hsize]
    rfl
  refine ⟨hpackable, by rw [hevents, hvisit], ?_⟩
  simp only [formatMessage, hevents, hvisit]
  intro heq
  have hlength := congrArg List.length heq
  simp only [render, renderScalar, upperHex, List.flatMap_cons, List.length_append,
    List.length_cons] at hlength
  have hempty : (ascii "ext()").length = 5 := rfl
  have hname : (ascii "ext(").length = 4 := rfl
  have hparen : (ascii ")").length = 1 := rfl
  omega

/-- The data of the longest extension that the format has. -/
def longestData : Bytes := List.replicate (2 ^ 32 - 1) 0

theorem length_longestData : longestData.length + 1 = 2 ^ 32 := by
  rw [longestData, List.length_replicate]
  omega

/-- Nothing of the longest extension is in its text, although no callback has ended the
parsing. -/
theorem longest_extension_is_lost :
    (Object.scalar (.ext 0 longestData)).Packable ∧
      (visitAll oneFormat 100 [] (parseEvents (pack (.scalar (.ext 0 longestData)))).1).1 = true ∧
      formatMessage oneFormat (pack (.scalar (.ext 0 longestData))) 100 ≠
        render oneFormat (.scalar (.ext 0 longestData)) :=
  formatMessage_of_uncounted 0 length_longestData

end MpRpc
