import Mathlib
import MpRpc.ErrorInfo
import MpRpc.Heap
import MpRpc.Machine

/-!
# SharedBinary — binary data with reference counts

A `shared_binary` is a handle: it holds a null pointer or points to an `impl` with the
bytes and a counter. The handles are cells as well, known by the number of their
construction, so that any number of them can be made, aliased and destroyed. An access
through a pointer to an `impl` that was deleted, or to a handle that was destroyed, is
undefined. A counter of type `std::size_t` can count all handles that fit into memory.
-/

namespace MpRpc

namespace SharedBinary

/-- `shared_binary::impl` -/
structure Impl where
  data : Bytes
  ref : Nat := 1
deriving DecidableEq, Repr

/-- The handles with their `impl_`, what they point to, and which `impl`s were deleted, in
order. -/
structure World where
  handles : Heap (Option Nat) := {}
  impls : Heap Impl := {}
  deleted : List Nat := []
deriving DecidableEq, Repr

/-- Code that works with handles. -/
abbrev Action (α : Type) := Command World Thrown α

def onHandles {α : Type} (c : Command (Heap (Option Nat)) Thrown α) : Action α :=
  Command.zoom World.handles (fun handles w => { w with handles }) c

def onImpls {α : Type} (c : Command (Heap Impl) Thrown α) : Action α :=
  Command.zoom World.impls (fun impls w => { w with impls }) c

/-! ## The functions -/

/-- The member `impl_` of the handle `h`. -/
def impl (h : Nat) : Action (Option Nat) := onHandles (Heap.read h)

/-- An assignment to `impl_`. -/
def setImpl (h : Nat) (ptr : Option Nat) : Action Unit := onHandles (Heap.write h ptr)

/-- `++(impl_->ref)`, unless the pointer is null. -/
def increment : Option Nat → Action Unit
  | none => pure ()
  | some c => do
      let i ← onImpls (Heap.read c)
      onImpls (Heap.write c { i with ref := i.ref + 1 })

/-- `delete impl_` -/
def delete (c : Nat) : Action Unit := do
  onImpls (Heap.free c)
  Command.modify fun w => { w with deleted := w.deleted ++ [c] }

/-- `--(impl_->ref)`, and the `delete` if nobody is left. -/
def decrement (c : Nat) : Action Unit := do
  let i ← onImpls (Heap.read c)
  let postRef := i.ref - 1
  onImpls (Heap.write c { i with ref := postRef })
  if postRef = 0 then delete c else pure ()

/-- `reset` -/
def reset (h : Nat) : Action Unit := do
  match ← impl h with
  | none => pure ()
  | some c => do
      decrement c
      setImpl h none

/-- `shared_binary()` -/
def construct : Action Nat := onHandles (Heap.alloc none)

/-- `shared_binary(const char*, std::size_t)`; the flag says whether the memory is
allocated. -/
def ofData (data : Bytes) (allocated : Bool) : Action Nat :=
  if allocated then do
    let c ← onImpls (Heap.alloc { data })
    onHandles (Heap.alloc (some c))
  else Command.throw .badAlloc

/-- `shared_binary(const shared_binary&)` -/
def copy (data : Nat) : Action Nat := do
  let ptr ← impl data
  let h ← onHandles (Heap.alloc ptr)
  increment ptr
  pure h

/-- `std::exchange(data.impl_, nullptr)` -/
def exchange (data : Nat) : Action (Option Nat) := do
  let ptr ← impl data
  setImpl data none
  pure ptr

/-- `shared_binary(shared_binary&&)` -/
def move (data : Nat) : Action Nat := do
  let ptr ← exchange data
  onHandles (Heap.alloc ptr)

/-- `operator=(const shared_binary&)` -/
def assign (h data : Nat) : Action Unit :=
  if h = data then pure ()
  else do
    reset h
    let ptr ← impl data
    setImpl h ptr
    increment ptr

/-- `operator=(shared_binary&&)`, which does not look whether the two are one -/
def moveAssign (h data : Nat) : Action Unit := do
  reset h
  let ptr ← exchange data
  setImpl h ptr

/-- `~shared_binary` -/
def destroy (h : Nat) : Action Unit := do
  reset h
  onHandles (Heap.free h)

/-- A function of `impl_` that has the value `null` for a null pointer. -/
def observe {α : Type} (null : α) (f : Impl → α) (h : Nat) : Action α := do
  match ← impl h with
  | none => pure null
  | some c => do
      let i ← onImpls (Heap.read c)
      pure (f i)

/-- `has_data` -/
def hasData (h : Nat) : Action Bool := do
  let ptr ← impl h
  pure ptr.isSome

/-- `data`: the bytes that are pointed to, unless the pointer is null -/
def data : Nat → Action (Option Bytes) := observe none fun i => some i.data

/-- `size` -/
def size : Nat → Action Nat := observe 0 fun i => i.data.length

/-- `use_count` -/
def useCount : Nat → Action Nat := observe 0 fun i => i.ref

/-- `operator==` -/
def eq (left right : Nat) : Action Bool := do
  let hasLeft ← hasData left
  let hasRight ← hasData right
  if !hasLeft then pure !hasRight
  else if !hasRight then pure false
  else do
    let l ← data left
    let r ← data right
    pure (l == r)

/-! ## Runs -/

inductive Event where
  | construct
  | ofData (data : Bytes) (allocated : Bool)
  | copy (data : Nat)
  | move (data : Nat)
  | assign (h data : Nat)
  | moveAssign (h data : Nat)
  | reset (h : Nat)
  | destroy (h : Nat)
deriving DecidableEq, Repr

namespace Event

/-- The handles that the event names. -/
def named : Event → List Nat
  | .construct => []
  | .ofData _ _ => []
  | .copy data => [data]
  | .move data => [data]
  | .assign h data => [h, data]
  | .moveAssign h data => [h, data]
  | .reset h => [h]
  | .destroy h => [h]

/-- The action, without its value. -/
def perform : Event → Action Unit
  | .construct => do
      let _ ← SharedBinary.construct
      pure ()
  | .ofData data allocated => do
      let _ ← SharedBinary.ofData data allocated
      pure ()
  | .copy data => do
      let _ ← SharedBinary.copy data
      pure ()
  | .move data => do
      let _ ← SharedBinary.move data
      pure ()
  | .assign h data => SharedBinary.assign h data
  | .moveAssign h data => SharedBinary.moveAssign h data
  | .reset h => SharedBinary.reset h
  | .destroy h => SharedBinary.destroy h

/-- The handles that are a copy and its source after the event. -/
def copied (w : World) : Event → Option (Nat × Nat)
  | .copy data => some (w.handles.next, data)
  | .assign h data => some (h, data)
  | _ => none

end Event

/-- The handle has been constructed and not been destroyed. -/
def World.Alive (w : World) (h : Nat) : Prop := (w.handles.cell h).isSome = true

instance (w : World) (h : Nat) : Decidable (w.Alive h) :=
  inferInstanceAs (Decidable ((w.handles.cell h).isSome = true))

/-- How many handles point to `c`. -/
def World.sharers (w : World) (c : Nat) : Nat := w.handles.count (some c)

/-- One event, if the handles that it names are alive and its behaviour is defined; a
constructor that throws makes no handle. -/
def step (w : World) (e : Event) : Option World :=
  if ∀ h ∈ e.named, w.Alive h then (e.perform.exec w).map Prod.snd else none

def machine : Machine World Event where
  init := {}
  step := step

/-! ## The counters -/

/-- What holds of the number `c` of an `impl`: as long as it is there, its counter is the
number of handles that point to it, and there is one. Afterwards nobody points to it and it
is among the deleted, unless it was never made. -/
structure World.Accounted (w : World) (c : Nat) : Prop where
  used : ∀ i, w.impls.cell c = some i → i.ref = w.sharers c ∧ 1 ≤ i.ref ∧ c ∉ w.deleted
  unused : w.impls.cell c = none → w.sharers c = 0 ∧ (c ∈ w.deleted ↔ c < w.impls.next)

/-- The invariant. -/
structure World.Inv (w : World) : Prop where
  accounted : ∀ c, w.Accounted c
  deleted : w.deleted.Nodup

variable {w w' : World} {h c : Nat} {ptr : Option Nat} {i : Impl}

/-- **No handle dangles.** -/
theorem World.Inv.exists_impl (hw : w.Inv) (hh : w.handles.cell h = some (some c)) :
    ∃ i, w.impls.cell c = some i := by
  cases hcell : w.impls.cell c with
  | some i => exact ⟨i, rfl⟩
  | none =>
    have hpos : 0 < w.sharers c := Heap.count_pos_iff.mpr ⟨h, hh⟩
    have hzero := ((hw.accounted c).unused hcell).1
    omega

/-- **A change at one `impl`**: if it is accounted for afterwards and nothing is different
for the others, the invariant is kept. -/
theorem World.Inv.update (hw : w.Inv) (c : Nat) (hself : w'.Accounted c)
    (hcell : ∀ d, d ≠ c → w'.impls.cell d = w.impls.cell d)
    (hsharers : ∀ d, d ≠ c → w'.sharers d = w.sharers d)
    (hmem : ∀ d, d ≠ c → (d ∈ w'.deleted ↔ d ∈ w.deleted))
    (hnext : ∀ d, d ≠ c → (d < w'.impls.next ↔ d < w.impls.next))
    (hdeleted : w'.deleted.Nodup) : w'.Inv where
  accounted d := by
    by_cases hd : d = c
    · exact hd ▸ hself
    · have hother := hw.accounted d
      refine ⟨?_, ?_⟩
      · rw [hcell d hd, hsharers d hd, hmem d hd]
        exact hother.used
      · rw [hcell d hd, hsharers d hd, hmem d hd, hnext d hd]
        exact hother.unused
  deleted := hdeleted

/-- Handles that point elsewhere, but as often to each. -/
theorem World.Inv.withHandles (hw : w.Inv) {handles : Heap (Option Nat)}
    (hcount : ∀ c, handles.count (some c) = w.handles.count (some c)) :
    ({ w with handles } : World).Inv where
  accounted c := by
    have hsharers : ({ w with handles } : World).sharers c = w.sharers c := hcount c
    refine ⟨?_, ?_⟩
    · rw [hsharers]
      exact (hw.accounted c).used
    · rw [hsharers]
      exact (hw.accounted c).unused
  deleted := hw.deleted

/-- **One more handle** to an `impl` that is there, which is counted. -/
theorem World.Inv.share (hw : w.Inv) (hi : w.impls.cell c = some i) {handles : Heap (Option Nat)}
    (hcount : ∀ d, handles.count (some d) = w.handles.count (some d) + if c = d then 1 else 0) :
    ({ w with
      handles
      impls := w.impls.set c (some { i with ref := i.ref + 1 }) } : World).Inv := by
  obtain ⟨href, -, hfresh⟩ := (hw.accounted c).used i hi
  have hself := Heap.cell_set_self (Heap.lt_next hi) (some { i with ref := i.ref + 1 })
  refine hw.update c ⟨?_, ?_⟩ ?_ ?_ (fun d _ => Iff.rfl) ?_ hw.deleted
  · intro i' hi'
    cases hself.symm.trans hi'
    refine ⟨?_, Nat.le_add_left 1 _, hfresh⟩
    show i.ref + 1 = handles.count (some c)
    rw [hcount, if_pos rfl, href]
    rfl
  · intro hnone
    cases hself.symm.trans hnone
  · exact fun d hd => Heap.cell_set_ne _ hd
  · intro d hd
    show handles.count (some d) = w.handles.count (some d)
    rw [hcount, if_neg (Ne.symm hd), Nat.add_zero]
  · intro d _
    show d < (w.impls.set c _).next ↔ _
    rw [Heap.next_set]

/-- **One handle less** to an `impl` that others point to as well. -/
theorem World.Inv.unshare (hw : w.Inv) (hi : w.impls.cell c = some i) (hleft : i.ref - 1 ≠ 0)
    {handles : Heap (Option Nat)}
    (hcount : ∀ d, handles.count (some d) + (if c = d then 1 else 0) = w.handles.count (some d)) :
    ({ w with
      handles
      impls := w.impls.set c (some { i with ref := i.ref - 1 }) } : World).Inv := by
  obtain ⟨href, -, hfresh⟩ := (hw.accounted c).used i hi
  have hself := Heap.cell_set_self (Heap.lt_next hi) (some { i with ref := i.ref - 1 })
  refine hw.update c ⟨?_, ?_⟩ ?_ ?_ (fun d _ => Iff.rfl) ?_ hw.deleted
  · intro i' hi'
    cases hself.symm.trans hi'
    refine ⟨?_, Nat.one_le_iff_ne_zero.mpr hleft, hfresh⟩
    have hone := hcount c
    rw [if_pos rfl] at hone
    show i.ref - 1 = handles.count (some c)
    unfold World.sharers at href
    omega
  · intro hnone
    cases hself.symm.trans hnone
  · exact fun d hd => Heap.cell_set_ne _ hd
  · intro d hd
    have hsame := hcount d
    rw [if_neg (Ne.symm hd), Nat.add_zero] at hsame
    exact hsame
  · intro d _
    show d < (w.impls.set c _).next ↔ _
    rw [Heap.next_set]

/-- **The last handle lets go**, and the `impl` is deleted. -/
theorem World.Inv.release (hw : w.Inv) (hi : w.impls.cell c = some i) (hlast : i.ref - 1 = 0)
    {handles : Heap (Option Nat)} {x : Option Impl}
    (hcount : ∀ d, handles.count (some d) + (if c = d then 1 else 0) = w.handles.count (some d)) :
    ({ w with
      handles
      impls := (w.impls.set c x).set c none
      deleted := w.deleted ++ [c] } : World).Inv := by
  obtain ⟨href, hpos, hfresh⟩ := (hw.accounted c).used i hi
  have hlt : c < (w.impls.set c x).next := by
    rw [Heap.next_set]
    exact Heap.lt_next hi
  have hself := Heap.cell_set_self hlt none
  refine hw.update c ⟨?_, ?_⟩ ?_ ?_ ?_ ?_ ?_
  · intro i' hi'
    cases hself.symm.trans hi'
  · intro _
    have hone := hcount c
    rw [if_pos rfl] at hone
    unfold World.sharers at href
    refine ⟨?_, ?_⟩
    · show handles.count (some c) = 0
      omega
    · show c ∈ w.deleted ++ [c] ↔ c < ((w.impls.set c x).set c none).next
      rw [Heap.next_set]
      exact iff_of_true (List.mem_append_right _ List.mem_cons_self) hlt
  · intro d hd
    show ((w.impls.set c x).set c none).cell d = _
    rw [Heap.cell_set_ne _ hd, Heap.cell_set_ne _ hd]
  · intro d hd
    have hsame := hcount d
    rw [if_neg (Ne.symm hd), Nat.add_zero] at hsame
    exact hsame
  · intro d hd
    show d ∈ w.deleted ++ [c] ↔ d ∈ w.deleted
    simp [hd]
  · intro d _
    show d < ((w.impls.set c x).set c none).next ↔ _
    rw [Heap.next_set, Heap.next_set]
  · refine List.Nodup.append hw.deleted (List.nodup_singleton c) ?_
    rw [List.disjoint_singleton]
    exact hfresh

/-- **A new `impl`** with its first handle. -/
theorem World.Inv.create (hw : w.Inv) (data : Bytes) :
    ({ w with
      handles := w.handles.push (some w.impls.next)
      impls := w.impls.push { data } } : World).Inv := by
  have hnone : w.impls.cell w.impls.next = none := by
    cases hcell : w.impls.cell w.impls.next with
    | none => rfl
    | some i => exact absurd (Heap.lt_next hcell) (Nat.lt_irrefl _)
  obtain ⟨hzero, hmem⟩ := (hw.accounted w.impls.next).unused hnone
  have hself := Heap.cell_push_self w.impls { data }
  refine hw.update w.impls.next ⟨?_, ?_⟩ ?_ ?_ (fun d _ => Iff.rfl) ?_ hw.deleted
  · intro i' hi'
    cases hself.symm.trans hi'
    refine ⟨?_, Nat.le_refl 1, fun hd => Nat.lt_irrefl _ (hmem.mp hd)⟩
    show 1 = (w.handles.push _).count _
    unfold World.sharers at hzero
    rw [Heap.count_push, if_pos rfl, hzero]
  · intro hnone'
    cases hself.symm.trans hnone'
  · exact fun d hd => Heap.cell_push_ne _ hd
  · intro d hd
    show (w.handles.push _).count _ = _
    rw [Heap.count_push, if_neg, Nat.add_zero]
    · rfl
    · intro heq
      exact hd (Option.some.inj heq).symm
  · intro d hd
    show d < (w.impls.push _).next ↔ _
    rw [Heap.next_push]
    omega

/-! ## What an action leaves alone -/

/-- Handles that are not named point where they did, and an `impl` that is there has the
bytes that it had. -/
structure Keeps (named : List Nat) (w w' : World) : Prop where
  handles : ∀ h ptr, h ∉ named → w.handles.cell h = some ptr → w'.handles.cell h = some ptr
  next : w.impls.next ≤ w'.impls.next
  data : ∀ c i', c < w.impls.next → w'.impls.cell c = some i' →
    ∃ i, w.impls.cell c = some i ∧ i.data = i'.data

theorem Keeps.refl (named : List Nat) (w : World) : Keeps named w w :=
  ⟨fun _ _ _ hh => hh, Nat.le_refl _, fun _ i' _ hi => ⟨i', hi, rfl⟩⟩

theorem Keeps.trans {named more : List Nat} {w'' : World} (hkeeps : Keeps named w w')
    (hkeeps' : Keeps more w' w'') (hnamed : named ⊆ more) : Keeps more w w'' where
  handles h ptr hh hcell :=
    hkeeps'.handles h ptr hh (hkeeps.handles h ptr (fun hmem => hh (hnamed hmem)) hcell)
  next := Nat.le_trans hkeeps.next hkeeps'.next
  data c i'' hlt hi'' := by
    obtain ⟨i', hi', hdata'⟩ := hkeeps'.data c i'' (Nat.lt_of_lt_of_le hlt hkeeps.next) hi''
    obtain ⟨i, hi, hdata⟩ := hkeeps.data c i' hlt hi'
    exact ⟨i, hi, hdata.trans hdata'⟩

/-- Only handles have changed. -/
theorem keeps_of_impls {named : List Nat} (himpls : w'.impls = w.impls)
    (hhandles : ∀ h ptr, h ∉ named → w.handles.cell h = some ptr → w'.handles.cell h = some ptr) :
    Keeps named w w' :=
  ⟨hhandles, Nat.le_of_eq (congrArg Heap.next himpls.symm),
    fun _ i' _ hi => ⟨i', himpls ▸ hi, rfl⟩⟩

/-- Only the counter of an `impl` has changed. -/
theorem keeps_of_set {named : List Nat} (hi : w.impls.cell c = some i) (ref : Nat)
    (himpls : w'.impls = w.impls.set c (some { i with ref }))
    (hhandles : ∀ h ptr, h ∉ named → w.handles.cell h = some ptr → w'.handles.cell h = some ptr) :
    Keeps named w w' where
  handles := hhandles
  next := by
    rw [himpls, Heap.next_set]
  data d i' _ hi' := by
    rw [himpls] at hi'
    by_cases hd : d = c
    · cases hd
      rw [Heap.cell_set_self (Heap.lt_next hi)] at hi'
      cases hi'
      exact ⟨i, hi, rfl⟩
    · rw [Heap.cell_set_ne _ hd] at hi'
      exact ⟨i', hi', rfl⟩

/-- An `impl` has been deleted. -/
theorem keeps_of_delete {named : List Nat} {x : Option Impl} (hlt : c < w.impls.next)
    (himpls : w'.impls = (w.impls.set c x).set c none)
    (hhandles : ∀ h ptr, h ∉ named → w.handles.cell h = some ptr → w'.handles.cell h = some ptr) :
    Keeps named w w' where
  handles := hhandles
  next := by
    rw [himpls, Heap.next_set, Heap.next_set]
  data d i' _ hi' := by
    rw [himpls] at hi'
    by_cases hd : d = c
    · cases hd
      rw [Heap.cell_set_self] at hi'
      · cases hi'
      · rw [Heap.next_set]
        exact hlt
    · rw [Heap.cell_set_ne _ hd, Heap.cell_set_ne _ hd] at hi'
      exact ⟨i', hi', rfl⟩

theorem cell_set_of_not_mem {heap : Heap (Option Nat)} {named : List Nat} (hmem : h ∈ named)
    (x : Option (Option Nat)) (h' : Nat) (ptr : Option Nat) (hh' : h' ∉ named)
    (hcell : heap.cell h' = some ptr) : (heap.set h x).cell h' = some ptr := by
  have hne : h' ≠ h := fun heq => hh' (heq ▸ hmem)
  rw [Heap.cell_set_ne x hne, hcell]

/-! ## The actions -/

section Actions

variable {E : Thrown → World → Prop}

@[simp] theorem wp_onHandles {α : Type} {a : Command (Heap (Option Nat)) Thrown α}
    {Q : α → World → Prop} :
    Command.wp (onHandles a) Q E w ↔
      Command.wp a (fun x handles => Q x { w with handles })
        (fun e handles => E e { w with handles }) w.handles :=
  Command.wp_zoom _ _ a

@[simp] theorem wp_onImpls {α : Type} {a : Command (Heap Impl) Thrown α} {Q : α → World → Prop} :
    Command.wp (onImpls a) Q E w ↔
      Command.wp a (fun x impls => Q x { w with impls }) (fun e impls => E e { w with impls })
        w.impls :=
  Command.wp_zoom _ _ a

theorem wp_impl (hh : w.handles.cell h = some ptr) {Q : Option Nat → World → Prop} :
    Command.wp (impl h) Q E w ↔ Q ptr w := by
  simp only [impl, wp_onHandles, Heap.wp_read hh]

theorem wp_setImpl (hh : w.handles.cell h = some ptr) (ptr' : Option Nat)
    {Q : Unit → World → Prop} :
    Command.wp (setImpl h ptr') Q E w ↔
      Q () { w with handles := w.handles.set h (some ptr') } := by
  simp only [setImpl, wp_onHandles, Heap.wp_write hh]

/-- A null pointer in the place of another takes one from its count. -/
theorem count_clear (hh : w.handles.cell h = some (some c)) (d : Nat) :
    (w.handles.set h (some none)).count (some d) + (if c = d then 1 else 0) =
      w.handles.count (some d) := by
  have hset := Heap.count_set hh (some d) (some none)
  simpa only [Option.some.injEq, reduceCtorEq, if_false, Nat.add_zero] using hset

/-- **`reset`** leaves a null pointer, and the invariant. -/
theorem wp_reset (hw : w.Inv) (hh : w.handles.cell h = some ptr) {Q : Unit → World → Prop}
    (hQ : ∀ w', w'.Inv → Keeps [h] w w' → w'.handles.cell h = some none → Q () w') :
    Command.wp (reset h) Q E w := by
  unfold reset
  simp only [Command.wp_bind, wp_impl hh]
  cases ptr with
  | none => exact hQ w hw (.refl _ w) hh
  | some c =>
    obtain ⟨i, hi⟩ := hw.exists_impl hh
    have hlt := Heap.lt_next hi
    have hset := Heap.cell_set_self hlt (some { i with ref := i.ref - 1 })
    have hself := Heap.cell_set_self (Heap.lt_next hh) (some none)
    simp only [Command.wp_bind, decrement, wp_onImpls, Heap.wp_read hi, Heap.wp_write hi]
    by_cases hlast : i.ref - 1 = 0
    · simp only [if_pos hlast, delete, Command.wp_bind, wp_onImpls, Heap.wp_free hset,
        Command.wp_modify]
      simp only [setImpl, wp_onHandles, Heap.wp_write hh]
      refine hQ _ (hw.release hi hlast (count_clear hh)) ?_ hself
      exact keeps_of_delete hlt rfl (cell_set_of_not_mem List.mem_cons_self _)
    · simp only [if_neg hlast, Command.wp_pure]
      simp only [setImpl, wp_onHandles, Heap.wp_write hh]
      refine hQ _ (hw.unshare hi hlast (count_clear hh)) ?_ hself
      exact keeps_of_set hi (i.ref - 1) rfl (cell_set_of_not_mem List.mem_cons_self _)

/-- What an event makes of the world. -/
structure Event.Outcome (e : Event) (w w' : World) : Prop where
  inv : w'.Inv
  keeps : Keeps e.named w w'
  copied : ∀ a b, e.copied w = some (a, b) →
    ∃ ptr, w'.handles.cell a = some ptr ∧ w'.handles.cell b = some ptr

/-- **A further handle with the pointer of another**, made by `handles`. -/
theorem wp_increment (named : List Nat) {handles : Heap (Option Nat)} {data : Nat} (hw : w.Inv)
    (hdata : w.handles.cell data = some ptr)
    (hcount : ∀ d, handles.count (some d) =
      w.handles.count (some d) + if ptr = some d then 1 else 0)
    (hhandles : ∀ h ptr, h ∉ named → w.handles.cell h = some ptr → handles.cell h = some ptr)
    {Q : Unit → World → Prop}
    (hQ : ∀ w', w'.Inv → Keeps named w w' → w'.handles = handles → Q () w') :
    Command.wp (increment ptr) Q E { w with handles } := by
  cases ptr with
  | none =>
    simp only [increment, Command.wp_pure]
    refine hQ _ (hw.withHandles ?_) (keeps_of_impls rfl hhandles) rfl
    intro c
    simpa only [reduceCtorEq, if_false, Nat.add_zero] using hcount c
  | some c =>
    obtain ⟨i, hi⟩ := hw.exists_impl hdata
    simp only [increment, Command.wp_bind, wp_onImpls, Heap.wp_read hi, Heap.wp_write hi]
    refine hQ _ (hw.share hi ?_) (keeps_of_set hi (i.ref + 1) rfl hhandles) rfl
    intro d
    simpa only [Option.some.injEq] using hcount d

/-- **Copy construction.** -/
theorem wp_copy {data : Nat} (hw : w.Inv) (hdata : w.handles.cell data = some ptr) :
    Command.wp (copy data) (fun _ w' => (Event.copy data).Outcome w w')
      (fun _ w' => (Event.copy data).Outcome w w') w := by
  unfold copy
  simp only [Command.wp_bind, wp_impl hdata, wp_onHandles, Heap.wp_alloc, Command.wp_pure]
  refine wp_increment [data] hw hdata (fun d => Heap.count_push _ _ _) ?_ ?_
  · exact fun h ptr _ hcell => Heap.cell_push_of_cell hcell
  · intro w' hinv hkeeps hhandles
    refine ⟨hinv, hkeeps, ?_⟩
    intro a b hab
    cases hab
    rw [hhandles]
    exact ⟨ptr, Heap.cell_push_self _ _, Heap.cell_push_of_cell hdata⟩

/-- **Copy assignment.** -/
theorem wp_assign {data : Nat} {ptr' : Option Nat} (hw : w.Inv)
    (hh : w.handles.cell h = some ptr') (hdata : w.handles.cell data = some ptr) :
    Command.wp (assign h data) (fun _ w' => (Event.assign h data).Outcome w w')
      (fun _ w' => (Event.assign h data).Outcome w w') w := by
  unfold assign
  by_cases hsame : h = data
  · rw [if_pos hsame, Command.wp_pure]
    refine ⟨hw, .refl _ w, ?_⟩
    intro a b hab
    cases hab
    exact ⟨ptr, hsame ▸ hdata, hdata⟩
  · rw [if_neg hsame]
    simp only [Command.wp_bind]
    refine wp_reset hw hh ?_
    intro w₁ hw₁ hkeeps₁ hself
    have hne : data ∉ [h] := fun hmem => hsame (List.mem_singleton.mp hmem).symm
    have hdata₁ := hkeeps₁.handles data ptr hne hdata
    rw [wp_impl hdata₁, wp_setImpl hself]
    refine wp_increment [h, data] hw₁ hdata₁ ?_
      (cell_set_of_not_mem List.mem_cons_self _) ?_
    · intro d
      have hset := Heap.count_set hself (some d) (some ptr)
      simpa only [reduceCtorEq, if_false, Nat.add_zero, Option.some.injEq] using hset
    · intro w₂ hw₂ hkeeps₂ hhandles
      refine ⟨hw₂, hkeeps₁.trans hkeeps₂ (by simp [Event.named]), ?_⟩
      intro a b hab
      cases hab
      rw [hhandles]
      refine ⟨ptr, Heap.cell_set_self (Heap.lt_next hself) _, ?_⟩
      rw [Heap.cell_set_ne _ (Ne.symm hsame), hdata₁]

/-- **Move construction.** -/
theorem wp_move {data : Nat} (hw : w.Inv) (hdata : w.handles.cell data = some ptr) :
    Command.wp (move data) (fun _ w' => (Event.move data).Outcome w w')
      (fun _ w' => (Event.move data).Outcome w w') w := by
  unfold move exchange
  simp only [Command.wp_bind, wp_impl hdata, wp_setImpl hdata, Command.wp_pure, wp_onHandles,
    Heap.wp_alloc]
  refine ⟨hw.withHandles ?_, keeps_of_impls rfl ?_, fun a b hab => by cases hab⟩
  · intro c
    have hset := Heap.count_set hdata (some c) (some none)
    rw [Heap.count_push]
    simpa only [Option.some.injEq, reduceCtorEq, if_false, Nat.add_zero] using hset
  · intro h' ptr' hh' hcell
    exact Heap.cell_push_of_cell (cell_set_of_not_mem List.mem_cons_self _ h' ptr' hh' hcell)

/-- **Move assignment**, also of a handle to itself. -/
theorem wp_moveAssign {data : Nat} {ptr' : Option Nat} (hw : w.Inv)
    (hh : w.handles.cell h = some ptr') (hdata : w.handles.cell data = some ptr) :
    Command.wp (moveAssign h data) (fun _ w' => (Event.moveAssign h data).Outcome w w')
      (fun _ w' => (Event.moveAssign h data).Outcome w w') w := by
  unfold moveAssign exchange
  simp only [Command.wp_bind]
  refine wp_reset hw hh ?_
  intro w₁ hw₁ hkeeps₁ hself
  obtain ⟨ptr₁, hdata₁⟩ : ∃ ptr₁, w₁.handles.cell data = some ptr₁ := by
    by_cases hsame : data = h
    · exact ⟨none, hsame ▸ hself⟩
    · exact ⟨ptr, hkeeps₁.handles data ptr (by simpa using hsame) hdata⟩
  have hself₁ : (w₁.handles.set data (some none)).cell h = some none := by
    by_cases hsame : h = data
    · rw [hsame]
      exact Heap.cell_set_self (Heap.lt_next hdata₁) _
    · rw [Heap.cell_set_ne _ hsame, hself]
  simp only [wp_impl hdata₁, setImpl, wp_onHandles, Heap.wp_write hdata₁, Command.wp_pure,
    Heap.wp_write hself₁]
  refine ⟨hw₁.withHandles ?_, hkeeps₁.trans ?_ ?_, fun a b hab => by cases hab⟩
  · intro c
    have hclear := Heap.count_set hdata₁ (some c) (some none)
    have hpoint := Heap.count_set hself₁ (some c) (some ptr₁)
    simp only [Option.some.injEq, reduceCtorEq, if_false, Nat.add_zero] at hclear hpoint
    show ((w₁.handles.set data (some none)).set h (some ptr₁)).count (some c) = _
    omega
  · refine keeps_of_impls rfl ?_
    intro h' ptr'' hh' hcell
    have hh : h ∈ [h, data] := List.mem_cons_self
    have hdata : data ∈ [h, data] := List.mem_cons_of_mem h List.mem_cons_self
    refine cell_set_of_not_mem hh _ h' ptr'' hh' ?_
    exact cell_set_of_not_mem hdata _ h' ptr'' hh' hcell
  · simp [Event.named]

/-- **The destructor.** -/
theorem wp_destroy (hw : w.Inv) (hh : w.handles.cell h = some ptr) :
    Command.wp (destroy h) (fun _ w' => (Event.destroy h).Outcome w w')
      (fun _ w' => (Event.destroy h).Outcome w w') w := by
  unfold destroy
  simp only [Command.wp_bind]
  refine wp_reset hw hh ?_
  intro w₁ hw₁ hkeeps₁ hself
  simp only [wp_onHandles, Heap.wp_free hself]
  refine ⟨hw₁.withHandles ?_, hkeeps₁.trans ?_ (fun _ hmem => hmem), fun a b hab => by cases hab⟩
  · intro c
    have hset := Heap.count_set hself (some c) none
    simpa only [reduceCtorEq, if_false, Nat.add_zero] using hset
  · exact keeps_of_impls rfl (cell_set_of_not_mem List.mem_cons_self _)

/-- **Every event** that names handles which are alive has an outcome. -/
theorem Event.wp_perform (e : Event) (hw : w.Inv) (he : ∀ h ∈ e.named, w.Alive h) :
    Command.wp e.perform (fun _ w' => e.Outcome w w') (fun _ w' => e.Outcome w w') w := by
  cases e with
  | construct =>
    simp only [perform, SharedBinary.construct, Command.wp_bind, wp_onHandles, Heap.wp_alloc,
      Command.wp_pure]
    refine ⟨hw.withHandles ?_, keeps_of_impls rfl ?_, fun a b hab => by cases hab⟩
    · intro c
      rw [Heap.count_push, if_neg (by simp), Nat.add_zero]
    · exact fun h ptr _ hcell => Heap.cell_push_of_cell hcell
  | ofData data allocated =>
    cases allocated with
    | false => exact ⟨hw, .refl _ w, fun a b hab => by cases hab⟩
    | true =>
      simp only [perform, SharedBinary.ofData, if_true, Command.wp_bind, wp_onImpls, wp_onHandles,
        Heap.wp_alloc, Command.wp_pure]
      refine ⟨hw.create data, ⟨?_, ?_, ?_⟩, fun a b hab => by cases hab⟩
      · exact fun h ptr _ hcell => Heap.cell_push_of_cell hcell
      · rw [Heap.next_push]
        exact Nat.le_succ _
      · intro c i' hlt hi'
        rw [Heap.cell_push_ne _ (Nat.ne_of_lt hlt)] at hi'
        exact ⟨i', hi', rfl⟩
  | copy data =>
    obtain ⟨ptr, hdata⟩ := Option.isSome_iff_exists.mp (he data List.mem_cons_self)
    simp only [perform, Command.wp_bind, Command.wp_pure]
    exact wp_copy hw hdata
  | move data =>
    obtain ⟨ptr, hdata⟩ := Option.isSome_iff_exists.mp (he data List.mem_cons_self)
    simp only [perform, Command.wp_bind, Command.wp_pure]
    exact wp_move hw hdata
  | assign h data =>
    obtain ⟨ptr', hh⟩ := Option.isSome_iff_exists.mp (he h List.mem_cons_self)
    obtain ⟨ptr, hdata⟩ :=
      Option.isSome_iff_exists.mp (he data (List.mem_cons_of_mem h List.mem_cons_self))
    exact wp_assign hw hh hdata
  | moveAssign h data =>
    obtain ⟨ptr', hh⟩ := Option.isSome_iff_exists.mp (he h List.mem_cons_self)
    obtain ⟨ptr, hdata⟩ :=
      Option.isSome_iff_exists.mp (he data (List.mem_cons_of_mem h List.mem_cons_self))
    exact wp_moveAssign hw hh hdata
  | reset h =>
    obtain ⟨ptr, hh⟩ := Option.isSome_iff_exists.mp (he h List.mem_cons_self)
    refine wp_reset hw hh ?_
    intro w' hw' hkeeps _
    exact ⟨hw', hkeeps, fun a b hab => by cases hab⟩
  | destroy h =>
    obtain ⟨ptr, hh⟩ := Option.isSome_iff_exists.mp (he h List.mem_cons_self)
    exact wp_destroy hw hh

end Actions

/-- **Every event** that names handles which are alive is a step. -/
theorem exists_step (e : Event) (hw : w.Inv) (he : ∀ h ∈ e.named, w.Alive h) :
    ∃ w', step w e = some w' ∧ e.Outcome w w' := by
  unfold step
  rw [if_pos he]
  rcases Command.exists_outcome (e.wp_perform hw he) with
    ⟨_, w', hexec, hout⟩ | ⟨_, w', hexec, hout⟩
  · exact ⟨w', by rw [hexec]; rfl, hout⟩
  · exact ⟨w', by rw [hexec]; rfl, hout⟩

/-! ## What a handle shows -/

theorem exec_observe_null {α : Type} {null : α} {f : Impl → α}
    (hh : w.handles.cell h = some none) : (observe null f h).exec w = some (.ok null, w) := by
  apply Command.exec_of_wp
  simp only [observe, Command.wp_bind, wp_impl hh, Command.wp_pure, and_self]

theorem exec_observe {α : Type} {null : α} {f : Impl → α}
    (hh : w.handles.cell h = some (some c)) (hi : w.impls.cell c = some i) :
    (observe null f h).exec w = some (.ok (f i), w) := by
  apply Command.exec_of_wp
  simp only [observe, Command.wp_bind, wp_impl hh, wp_onImpls, Heap.wp_read hi, Command.wp_pure,
    and_self]

/-- How many handles share what the handle points to. -/
def World.users (w : World) (h : Nat) : Nat :=
  match w.handles.cell h with
  | some (some c) => w.sharers c
  | _ => 0

/-- **A handle keeps its meaning**: the bytes and the size are those from before, and
`use_count` says how many share them now. -/
structure Unchanged (w w' : World) (h : Nat) : Prop where
  data : ∃ v, (data h).exec w = some (.ok v, w) ∧ (data h).exec w' = some (.ok v, w')
  size : ∃ n, (size h).exec w = some (.ok n, w) ∧ (size h).exec w' = some (.ok n, w')
  useCount : (useCount h).exec w' = some (.ok (w'.users h), w')

theorem Keeps.unchanged {named : List Nat} (hkeeps : Keeps named w w') (hw : w.Inv)
    (hw' : w'.Inv) (hh : h ∉ named) (halive : w.Alive h) : Unchanged w w' h := by
  obtain ⟨ptr, hcell⟩ := Option.isSome_iff_exists.mp halive
  have hcell' := hkeeps.handles h ptr hh hcell
  cases ptr with
  | none =>
    have husers : w'.users h = 0 := by
      unfold World.users
      rw [hcell']
    refine ⟨⟨none, ?_, ?_⟩, ⟨0, ?_, ?_⟩, husers ▸ ?_⟩
    · exact exec_observe_null hcell
    · exact exec_observe_null hcell'
    · exact exec_observe_null hcell
    · exact exec_observe_null hcell'
    · exact exec_observe_null hcell'
  | some c =>
    obtain ⟨i₀, hi₀⟩ := hw.exists_impl hcell
    obtain ⟨i', hi'⟩ := hw'.exists_impl hcell'
    obtain ⟨i, hi, hdata⟩ := hkeeps.data c i' (Heap.lt_next hi₀) hi'
    have husers : i'.ref = w'.users h := by
      unfold World.users
      rw [hcell']
      exact ((hw'.accounted c).used i' hi').1
    refine ⟨⟨some i.data, ?_, ?_⟩, ⟨i.data.length, ?_, ?_⟩, husers ▸ ?_⟩
    · exact exec_observe hcell hi
    · rw [hdata]
      exact exec_observe hcell' hi'
    · exact exec_observe hcell hi
    · rw [hdata]
      exact exec_observe hcell' hi'
    · exact exec_observe hcell' hi'

/-- **Two handles with one pointer compare equal.** -/
theorem exec_eq {left right : Nat} (hw : w.Inv) (hleft : w.handles.cell left = some ptr)
    (hright : w.handles.cell right = some ptr) : (eq left right).exec w = some (.ok true, w) := by
  apply Command.exec_of_wp
  unfold eq hasData data observe
  cases ptr with
  | none =>
    simp only [Command.wp_bind, wp_impl hleft, wp_impl hright, Command.wp_pure]
    exact ⟨rfl, rfl⟩
  | some c =>
    obtain ⟨i, hi⟩ := hw.exists_impl hleft
    simp only [Command.wp_bind, wp_impl hleft, wp_impl hright, Command.wp_pure, Option.isSome_some,
      Bool.not_true, Bool.false_eq_true, if_false, wp_onImpls, Heap.wp_read hi, beq_self_eq_true,
      and_self]

theorem inv_init : World.Inv {} where
  accounted c := by
    refine ⟨?_, ?_⟩
    · intro i hi
      exact absurd (Heap.lt_next hi) (Nat.not_lt_zero c)
    · intro _
      exact ⟨rfl, iff_of_false List.not_mem_nil (Nat.not_lt_zero c)⟩
  deleted := List.nodup_nil

theorem alive_of_step {e : Event} (hstep : step w e = some w') : ∀ h ∈ e.named, w.Alive h := by
  unfold step at hstep
  split at hstep
  · assumption
  · cases hstep

/-- **One event** keeps the invariant. -/
theorem inv_step {e : Event} (hw : w.Inv) (hstep : step w e = some w') : w'.Inv := by
  obtain ⟨w'', hstep', hout⟩ := exists_step e hw (alive_of_step hstep)
  cases hstep'.symm.trans hstep
  exact hout.inv

/-- **The counters agree with the handles**: after every run each `impl` that is there counts
the handles that point to it, of which there is one, and no handle points to one that was
deleted. An `impl` is deleted once, and that is when nobody points to it any more. Every
further event that names handles which are alive has an outcome; it leaves the meaning of
the other handles alone, and a copy is equal to its source. -/
theorem counters_agree_with_handles {es : List Event} {w : World}
    (hr : machine.run machine.init es = some w) :
    (∀ c i, w.impls.cell c = some i → i.ref = w.sharers c ∧ 1 ≤ i.ref) ∧
    (∀ h c, w.handles.cell h = some (some c) → ∃ i, w.impls.cell c = some i) ∧
    w.deleted.Nodup ∧ (∀ c, c ∈ w.deleted ↔ c < w.impls.next ∧ w.sharers c = 0) ∧
    ∀ e : Event, (∀ h ∈ e.named, w.Alive h) →
      ∃ w', step w e = some w' ∧
        (∀ h, h ∉ e.named → w.Alive h → Unchanged w w' h) ∧
        ∀ a b, e.copied w = some (a, b) → (eq a b).exec w' = some (.ok true, w') := by
  have hw : w.Inv :=
    Machine.run_invariant (I := World.Inv) (fun _ _ _ hs hstep => inv_step hs hstep) inv_init hr
  refine ⟨?_, fun h c hh => hw.exists_impl hh, hw.deleted, ?_, ?_⟩
  · intro c i hi
    obtain ⟨href, hpos, -⟩ := (hw.accounted c).used i hi
    exact ⟨href, hpos⟩
  · intro c
    cases hcell : w.impls.cell c with
    | none =>
      obtain ⟨hzero, hmem⟩ := (hw.accounted c).unused hcell
      rw [hmem, and_iff_left hzero]
    | some i =>
      obtain ⟨href, hpos, hnot⟩ := (hw.accounted c).used i hcell
      refine iff_of_false hnot ?_
      intro hzero
      omega
  · intro e he
    obtain ⟨w', hstep, hout⟩ := exists_step e hw he
    refine ⟨w', hstep, fun h hh halive => hout.keeps.unchanged hw hout.inv hh halive, ?_⟩
    intro a b hab
    obtain ⟨ptr, ha, hb⟩ := hout.copied a b hab
    exact exec_eq hout.inv ha hb

/-- Two handles of one `impl` are assigned to each other, one of them is moved to itself, and
the other is destroyed. -/
def aliased : List Event :=
  [.ofData [1, 2] true, .copy 0, .assign 0 1, .moveAssign 1 1, .destroy 0]

theorem counters_agree_with_handles_aliased :
    ∃ w, machine.run machine.init aliased = some w ∧ w.deleted = [0] ∧
      (0 ∈ w.deleted ↔ 0 < w.impls.next ∧ w.sharers 0 = 0) := by
  have hr : machine.run machine.init aliased =
      some ⟨⟨[none, some none]⟩, ⟨[none]⟩, [0]⟩ := by decide
  exact ⟨_, hr, rfl, (counters_agree_with_handles hr).2.2.2.1 0⟩

end SharedBinary

end MpRpc
