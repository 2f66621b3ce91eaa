import Mathlib
import MpRpc.Fallible
import MpRpc.Toml

/-!
# Form — what a document says, apart from how it is read

A form describes the values that stand for the elements of a type `A`: which values are
accepted, which element a value stands for, and where the integers of a value lie in
range. It is built as documents are: a list of one form, a record with a form for each
key. A decoder is compared with a form by `Form.Decodes`, and the rules of this file
compare the loop over a list and the loop over the entries of a table with the form of
the list and of the record.
-/

namespace MpRpc.Toml

/-- How the integers of a document are taken: as they are written, or as the type they
are converted to has them. -/
inductive Reading where
  | literal
  | narrowed
deriving DecidableEq, Repr

/-- The values that stand for elements of `A`. -/
structure Form (A : Type) where
  /-- The value is one that the form allows. -/
  Accepts : Reading → Value → Prop
  /-- Each integer of the value lies in the range of the type it is read as. -/
  InRange : Value → Prop
  /-- The element holds exactly what the value says. -/
  Literal : Value → A → Prop
  /-- Only integers out of range tell the two readings apart. -/
  accepts_literal_iff (v : Value) : Accepts .literal v ↔ Accepts .narrowed v ∧ InRange v

namespace Form

variable {A C ε : Type}

/-- The decoder reads the values of the form, their integers narrowed. -/
structure Decodes (F : Form A) (decode : Value → Except ε A) : Prop where
  succeeds_iff (v : Value) : (∃ a, decode v = .ok a) ↔ F.Accepts .narrowed v
  literal {v : Value} {a : A} (hv : v.WellFormed) (h : decode v = .ok a)
    (hrange : F.InRange v) : F.Literal v a

/-- **Taken literally or rejected**: a decoder accepts the values of its form, and no
others, and returns what they say, just if no value has an integer out of range that it
narrows to one it accepts. -/
theorem Decodes.literal_or_rejected_iff {F : Form A} {decode : Value → Except ε A}
    (hF : F.Decodes decode) {v : Value} (hv : v.WellFormed) :
    (((∃ a, decode v = .ok a) ↔ F.Accepts .literal v) ∧
      ∀ a, decode v = .ok a → F.Literal v a) ↔
    (F.Accepts .narrowed v → F.InRange v) := by
  rw [hF.succeeds_iff, F.accepts_literal_iff]
  constructor
  · rintro ⟨haccepts, -⟩ hnarrowed
    exact (haccepts.mp hnarrowed).2
  · intro hrange
    refine ⟨⟨fun h => ⟨h, hrange h⟩, fun h => h.1⟩, fun a ha => ?_⟩
    exact hF.literal hv ha (hrange ((hF.succeeds_iff v).mp ⟨a, ha⟩))

/-! ## Lists -/

/-- An array of values of one form. -/
def list (F : Form A) : Form (List A) where
  Accepts r v := ∃ elements, v = .array elements ∧ ∀ w ∈ elements, F.Accepts r w
  InRange v := ∀ elements, v = .array elements → ∀ w ∈ elements, F.InRange w
  Literal v as := ∃ elements, v = .array elements ∧ List.Forall₂ F.Literal elements as
  accepts_literal_iff v := by
    constructor
    · rintro ⟨elements, rfl, h⟩
      refine ⟨⟨elements, rfl, fun w hw => ((F.accepts_literal_iff w).mp (h w hw)).1⟩, ?_⟩
      rintro _ ⟨⟩ w hw
      exact ((F.accepts_literal_iff w).mp (h w hw)).2
    · rintro ⟨⟨elements, rfl, h⟩, hrange⟩
      exact ⟨elements, rfl, fun w hw =>
        (F.accepts_literal_iff w).mpr ⟨h w hw, hrange elements rfl w hw⟩⟩

/-- The loop over an array reads the list of a form. -/
theorem Decodes.list [Get A] {F : Form A} (hF : F.Decodes (get : Value → Except Exception A)) :
    F.list.Decodes (get : Value → Except Exception (List A)) where
  succeeds_iff v := by
    constructor
    · rintro ⟨as, h⟩
      obtain ⟨elements, harray, h⟩ := Fallible.bind_eq_ok_iff.mp h
      refine ⟨elements, Value.asArray_eq_ok.mp harray, fun w hw => ?_⟩
      exact (hF.succeeds_iff w).mp (Fallible.exists_mapM_eq_ok_iff.mp ⟨as, h⟩ w hw)
    · rintro ⟨elements, rfl, h⟩
      exact Fallible.exists_mapM_eq_ok_iff.mpr fun w hw => (hF.succeeds_iff w).mpr (h w hw)
  literal hv h hrange := by
    obtain ⟨elements, harray, h⟩ := Fallible.bind_eq_ok_iff.mp h
    obtain rfl := Value.asArray_eq_ok.mp harray
    have hmem : ∀ w ∈ elements, w.WellFormed ∧ F.InRange w := fun w hw =>
      ⟨Value.wellFormed_array_iff.mp hv w hw, hrange elements rfl w hw⟩
    refine ⟨elements, rfl, ?_⟩
    refine ((List.forall₂_and_left _ _).mpr ⟨hmem, Fallible.mapM_eq_ok_iff.mp h⟩).imp ?_
    rintro w a ⟨⟨hw, hwrange⟩, ha⟩
    exact hF.literal hw ha hwrange

/-! ## Records -/

/-- One key of a record: what stands at it, where the record has it, and what the record
has there when the key is absent. -/
structure Field (C : Type) where
  key : String
  {A : Type}
  form : Form A
  get : C → A
  absent : A

/-- A table with some of the keys of the record, each with a value of its form, and with
no other key. -/
def record (fields : List (Field C)) (nodup : (fields.map Field.key).Nodup) : Form C where
  Accepts r v := ∃ entries, v = .table entries ∧ ∀ entry ∈ entries,
    ∃ f ∈ fields, f.key = entry.1 ∧ f.form.Accepts r entry.2
  InRange v := ∀ entries, v = .table entries → ∀ entry ∈ entries,
    ∀ f ∈ fields, f.key = entry.1 → f.form.InRange entry.2
  Literal v c := ∃ entries, v = .table entries ∧ ∀ f ∈ fields,
    (∀ w, (f.key, w) ∈ entries → f.form.Literal w (f.get c)) ∧
    ((∀ w, (f.key, w) ∉ entries) → f.get c = f.absent)
  accepts_literal_iff v := by
    constructor
    · rintro ⟨entries, rfl, h⟩
      constructor
      · refine ⟨entries, rfl, fun entry hentry => ?_⟩
        obtain ⟨f, hf, hkey, haccepts⟩ := h entry hentry
        exact ⟨f, hf, hkey, ((f.form.accepts_literal_iff _).mp haccepts).1⟩
      · rintro _ ⟨⟩ entry hentry g hg hgkey
        obtain ⟨f, hf, hkey, haccepts⟩ := h entry hentry
        -- the keys differ, so the field that accepts the entry is the one in question
        obtain rfl := List.inj_on_of_nodup_map nodup hf hg (hkey.trans hgkey.symm)
        exact ((f.form.accepts_literal_iff _).mp haccepts).2
    · rintro ⟨⟨entries, rfl, h⟩, hrange⟩
      refine ⟨entries, rfl, fun entry hentry => ?_⟩
      obtain ⟨f, hf, hkey, haccepts⟩ := h entry hentry
      exact ⟨f, hf, hkey, (f.form.accepts_literal_iff _).mpr
        ⟨haccepts, hrange entries rfl entry hentry f hf hkey⟩⟩

end Form

/-- One branch of the loop over the entries of a table: the key, and the assignment
`config.member = toml::get<A>(pair.second)`. -/
structure Branch (ε C : Type) where
  key : String
  {A : Type}
  decode : Value → Except ε A
  assign : A → C → C

/-- The loop over the entries of a table: the first branch with the key of the entry is
taken, and an entry without a branch is an error. -/
def readEntries {ε C : Type} (unknown : String → ε) (branches : List (Branch ε C)) :
    List (String × Value) → C → Except ε C
  | [], config => .ok config
  | (key, value) :: rest, config =>
    match branches.find? (·.key = key) with
    | none => .error (unknown key)
    | some branch => do
      let x ← branch.decode value
      readEntries unknown branches rest (branch.assign x config)

theorem readEntries_cons_eq_ok_iff {ε C : Type} {unknown : String → ε}
    {branches : List (Branch ε C)} {key : String} {value : Value}
    {rest : List (String × Value)} {config c : C} :
    readEntries unknown branches ((key, value) :: rest) config = .ok c ↔
      ∃ branch, branches.find? (·.key = key) = some branch ∧ ∃ x, branch.decode value = .ok x ∧
        readEntries unknown branches rest (branch.assign x config) = .ok c := by
  rw [readEntries]
  cases branches.find? (·.key = key) with
  | none => simp
  | some branch => simp [Fallible.bind_eq_ok_iff]

/-- Read a table from the entries that are there. -/
def readTable {C : Type} (unknown : String → Exception) (branches : List (Branch Exception C))
    (init : C) (value : Value) : Except Exception C := do
  let entries ← value.asTable
  readEntries unknown branches entries init

namespace Form

variable {C ε : Type}

/-- The branch reads the field: it decodes the form of the field and stores the result
where the record has the field. -/
inductive Field.ReadBy : Field C → Branch ε C → Prop
  | intro {key : String} {A : Type} {form : Form A} {get : C → A} {absent : A}
    {decode : Value → Except ε A} {assign : A → C → C} (decodes : form.Decodes decode)
    (get_assign : ∀ x c, get (assign x c) = x) :
    Field.ReadBy ⟨key, form, get, absent⟩ ⟨key, decode, assign⟩

namespace Field.ReadBy

variable {f : Field C} {b : Branch ε C}

theorem key_eq (h : f.ReadBy b) : f.key = b.key := by
  cases h
  rfl

theorem succeeds_iff (h : f.ReadBy b) (v : Value) :
    (∃ x, b.decode v = .ok x) ↔ f.form.Accepts .narrowed v := by
  cases h with
  | intro decodes => exact decodes.succeeds_iff v

theorem literal (h : f.ReadBy b) {v : Value} (hv : v.WellFormed) {x : b.A}
    (hx : b.decode v = .ok x) (hrange : f.form.InRange v) (c : C) :
    f.form.Literal v (f.get (b.assign x c)) := by
  cases h with
  | @intro _ _ form get _ _ assign decodes get_assign =>
    show form.Literal v (get (assign x c))
    rw [get_assign]
    exact decodes.literal hv hx hrange

end Field.ReadBy

/-- The branches read the fields of a record that starts as `init`. -/
structure Implements (branches : List (Branch ε C)) (init : C) (fields : List (Field C)) :
    Prop where
  read : List.Forall₂ Field.ReadBy fields branches
  frame : ∀ f ∈ fields, ∀ b ∈ branches, f.key ≠ b.key → ∀ x c, f.get (b.assign x c) = f.get c
  init : ∀ f ∈ fields, f.get init = f.absent

theorem exists_mem_left_of_forall₂ {α β : Type*} {R : α → β → Prop} {as : List α} {bs : List β}
    (h : List.Forall₂ R as bs) {b : β} (hb : b ∈ bs) : ∃ a ∈ as, R a b := by
  induction h with
  | nil => cases hb
  | cons hab _ ih =>
    rcases List.mem_cons.mp hb with rfl | hb
    · exact ⟨_, List.mem_cons_self, hab⟩
    · obtain ⟨a, ha, hab⟩ := ih hb
      exact ⟨a, List.mem_cons_of_mem _ ha, hab⟩

namespace Implements

variable {branches : List (Branch ε C)} {init : C} {fields : List (Field C)}
  {unknown : String → ε}

/-- The branch that is taken for a key reads the field of that key. -/
theorem exists_field (h : Implements branches init fields) {key : String} {b : Branch ε C}
    (hb : branches.find? (·.key = key) = some b) : ∃ f ∈ fields, f.key = key ∧ f.ReadBy b := by
  have hkey : b.key = key := by simpa using List.find?_some hb
  obtain ⟨f, hf, hread⟩ := exists_mem_left_of_forall₂ h.read (List.mem_of_find?_eq_some hb)
  exact ⟨f, hf, hread.key_eq.trans hkey, hread⟩

/-- A field is read by the branch that is taken for its key. -/
theorem exists_branch (h : Implements branches init fields)
    (nodup : (fields.map Field.key).Nodup) {f : Field C} (hf : f ∈ fields) :
    ∃ b, branches.find? (·.key = f.key) = some b ∧ f.ReadBy b := by
  obtain ⟨b', hb', hread'⟩ := exists_mem_left_of_forall₂ h.read.flip hf
  have hsome : (branches.find? (·.key = f.key)).isSome :=
    List.find?_isSome.mpr ⟨b', hb', by simp [hread'.key_eq]⟩
  obtain ⟨b, hb⟩ := Option.isSome_iff_exists.mp hsome
  obtain ⟨g, hg, hkey, hread⟩ := h.exists_field hb
  obtain rfl := List.inj_on_of_nodup_map nodup hg hf hkey
  exact ⟨b, hb, hread⟩

/-- The loop gets to its end just if each entry has a field that accepts it. -/
theorem readEntries_succeeds_iff (h : Implements branches init fields)
    (nodup : (fields.map Field.key).Nodup) (entries : List (String × Value)) (config : C) :
    (∃ c, readEntries unknown branches entries config = .ok c) ↔
      ∀ entry ∈ entries, ∃ f ∈ fields, f.key = entry.1 ∧ f.form.Accepts .narrowed entry.2 := by
  induction entries generalizing config with
  | nil => simp [readEntries]
  | cons entry rest ih =>
    obtain ⟨key, value⟩ := entry
    rw [List.forall_mem_cons]
    simp only [readEntries_cons_eq_ok_iff]
    constructor
    · rintro ⟨c, b, hb, x, hx, hc⟩
      obtain ⟨f, hf, hkey, hread⟩ := h.exists_field hb
      exact ⟨⟨f, hf, hkey, (hread.succeeds_iff value).mp ⟨x, hx⟩⟩, (ih _).mp ⟨c, hc⟩⟩
    · rintro ⟨⟨f, hf, rfl, haccepts⟩, hrest⟩
      obtain ⟨b, hb, hread⟩ := h.exists_branch nodup hf
      obtain ⟨x, hx⟩ := (hread.succeeds_iff value).mpr haccepts
      obtain ⟨c, hc⟩ := (ih (b.assign x config)).mpr hrest
      exact ⟨c, b, hb, x, hx, hc⟩

/-- The loop leaves a field as it is that no entry names. -/
theorem get_readEntries (h : Implements branches init fields) {f : Field C} (hf : f ∈ fields)
    {entries : List (String × Value)} (habsent : ∀ w, (f.key, w) ∉ entries) {config c : C}
    (hc : readEntries unknown branches entries config = .ok c) : f.get c = f.get config := by
  induction entries generalizing config with
  | nil =>
    cases hc
    rfl
  | cons entry rest ih =>
    obtain ⟨key, value⟩ := entry
    obtain ⟨b, hb, x, -, hc⟩ := readEntries_cons_eq_ok_iff.mp hc
    have hkey : b.key = key := by simpa using List.find?_some hb
    have hne : f.key ≠ b.key := by
      rintro heq
      exact habsent value (by rw [heq, hkey]; exact List.mem_cons_self)
    rw [ih (fun w hw => habsent w (List.mem_cons_of_mem _ hw)) hc]
    exact h.frame f hf b (List.mem_of_find?_eq_some hb) hne x config

/-- After the loop a field that an entry names holds what the entry says: no later entry
has its key. -/
theorem literal_readEntries (h : Implements branches init fields)
    (nodup : (fields.map Field.key).Nodup) {f : Field C} (hf : f ∈ fields)
    {entries : List (String × Value)} (hkeys : (entries.map Prod.fst).Nodup) {w : Value}
    (hw : (f.key, w) ∈ entries) (hwf : w.WellFormed) (hrange : f.form.InRange w)
    {config c : C} (hc : readEntries unknown branches entries config = .ok c) :
    f.form.Literal w (f.get c) := by
  induction entries generalizing config with
  | nil => cases hw
  | cons entry rest ih =>
    obtain ⟨key, value⟩ := entry
    obtain ⟨b, hb, x, hx, hrest⟩ := readEntries_cons_eq_ok_iff.mp hc
    rw [List.map_cons, List.nodup_cons] at hkeys
    rcases List.mem_cons.mp hw with heq | hw
    · cases heq
      obtain ⟨b', hb', hread⟩ := h.exists_branch nodup hf
      cases hb.symm.trans hb'
      have habsent : ∀ u, (f.key, u) ∉ rest := fun u hu =>
        hkeys.1 (List.mem_map.mpr ⟨_, hu, rfl⟩)
      rw [h.get_readEntries hf habsent hrest]
      exact hread.literal hwf hx hrange config
    · exact ih hkeys.2 hw hrest

end Implements

/-- The loop over a table reads the record of the fields. -/
theorem Implements.decodes {branches : List (Branch Exception C)} {init : C}
    {fields : List (Field C)} (h : Implements branches init fields)
    (nodup : (fields.map Field.key).Nodup) (unknown : String → Exception) :
    (record fields nodup).Decodes (readTable unknown branches init) where
  succeeds_iff v := by
    constructor
    · rintro ⟨c, hc⟩
      obtain ⟨entries, htable, hc⟩ := Fallible.bind_eq_ok_iff.mp hc
      exact ⟨entries, Value.asTable_eq_ok.mp htable,
        (h.readEntries_succeeds_iff nodup entries init).mp ⟨c, hc⟩⟩
    · rintro ⟨entries, rfl, haccepts⟩
      exact (h.readEntries_succeeds_iff nodup entries init).mpr haccepts
  literal hv hc hrange := by
    obtain ⟨entries, htable, hc⟩ := Fallible.bind_eq_ok_iff.mp hc
    obtain rfl := Value.asTable_eq_ok.mp htable
    obtain ⟨hkeys, hentries⟩ := Value.wellFormed_table_iff.mp hv
    refine ⟨entries, rfl, fun f hf => ⟨fun w hw => ?_, fun habsent => ?_⟩⟩
    · exact h.literal_readEntries nodup hf hkeys hw (hentries _ hw)
        (hrange entries rfl _ hw f hf rfl) hc
    · rw [h.get_readEntries hf habsent hc, h.init f hf]

end Form

/-! ## Errors -/

theorem bind_eq_error_iff {A B ε : Type} {x : Except ε A} {f : A → Except ε B} {e : ε} :
    x >>= f = .error e ↔ x = .error e ∨ ∃ a, x = .ok a ∧ f a = .error e := by
  cases x with
  | error e => simp [bind, Except.bind]
  | ok a => simp [bind, Except.bind]

/-- What the loop over a list throws is thrown for an element. -/
theorem mapM_error {A B ε : Type} {P : ε → Prop} {f : A → Except ε B}
    (hf : ∀ a e, f a = .error e → P e) {as : List A} {e : ε} (h : as.mapM f = .error e) :
    P e := by
  induction as with
  | nil => cases h
  | cons a as ih =>
    rw [List.mapM_cons] at h
    rcases bind_eq_error_iff.mp h with ha | ⟨b, -, h⟩
    · exact hf a e ha
    · rcases bind_eq_error_iff.mp h with has | ⟨bs, -, h⟩
      · exact ih has
      · cases h

/-- What the loop over a table throws is thrown for an unknown key or by a branch. -/
theorem readEntries_error {C ε : Type} {P : ε → Prop} {unknown : String → ε}
    {branches : List (Branch ε C)} (hunknown : ∀ key, P (unknown key))
    (hbranches : ∀ b ∈ branches, ∀ v e, b.decode v = .error e → P e)
    {entries : List (String × Value)} {config : C} {e : ε}
    (h : readEntries unknown branches entries config = .error e) : P e := by
  induction entries generalizing config with
  | nil => cases h
  | cons entry rest ih =>
    obtain ⟨key, value⟩ := entry
    rw [readEntries] at h
    cases hb : branches.find? (·.key = key) with
    | none =>
      rw [hb] at h
      cases h
      exact hunknown key
    | some b =>
      rw [hb] at h
      rcases bind_eq_error_iff.mp h with hx | ⟨x, -, h⟩
      · exact hbranches b (List.mem_of_find?_eq_some hb) value e hx
      · exact ih h

end MpRpc.Toml
