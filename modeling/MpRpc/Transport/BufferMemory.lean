import Mathlib
import MpRpc.Heap
import MpRpc.Machine
import MpRpc.Transport.Buffer

/-!
# BufferMemory — `buffer` over memory

The members of `mprpc::buffer` as they are: a pointer to a block and two numbers, which
are assigned one after the other. An allocation that fails throws between two of the
assignments. `Represents` says which `Buffer` such an object stands for; each function
does to it what the function of `Buffer` does, or throws and has changed nothing, and it
leaves all other blocks alone.
-/

namespace MpRpc.Transport

/-- The blocks of memory. -/
abbrev Memory := Heap Bytes

namespace Memory

/-- No block is larger than `limit`, whatever the allocator would answer. -/
def granted (limit size : Nat) (allocation : Allocation) : Allocation :=
  if size ≤ limit then allocation else none

/-- `std::malloc`; a null pointer is `none`. -/
def malloc (limit size : Nat) (allocation : Allocation) : Command Memory Thrown (Option Nat) :=
  match Buffer.reallocate [] size (granted limit size allocation) with
  | none => pure none
  | some data => do
      let ptr ← Heap.alloc data
      pure (some ptr)

/-- `std::realloc`, which leaves the old block alone if it fails. A block that grows where
it is has a new address here, so that no old pointer to it is good. -/
def realloc (limit ptr size : Nat) (allocation : Allocation) :
    Command Memory Thrown (Option Nat) := do
  let old ← Heap.read ptr
  match Buffer.reallocate old size (granted limit size allocation) with
  | none => pure none
  | some data => do
      Heap.free ptr
      let ptr ← Heap.alloc data
      pure (some ptr)

/-- `std::memmove` inside a block. -/
def memmove (ptr dest src size : Nat) : Command Memory Thrown Unit := do
  let data ← Heap.read ptr
  if dest + size ≤ data.length ∧ src + size ≤ data.length then
    Heap.write ptr (data.take dest ++ (data.drop src).take size ++ data.drop (dest + size))
  else Command.undefined

/-- Bytes written into a block, as by `std::memcpy`. -/
def memcpy (ptr dest : Nat) (bytes : Bytes) : Command Memory Thrown Unit := do
  let data ← Heap.read ptr
  if dest + bytes.length ≤ data.length then
    Heap.write ptr (data.take dest ++ bytes ++ data.drop (dest + bytes.length))
  else Command.undefined

end Memory

/-- A method works on the members of its object and on the memory. -/
abbrev Method (P α : Type) := Command (Memory × P) Thrown α

namespace Method

variable {P R α : Type}

/-- The members. -/
def this : Method P P := do
  let s ← Command.get
  pure s.2

/-- An assignment to a member. -/
def assign (f : P → P) : Method P Unit := Command.modify fun s => (s.1, f s.2)

/-- A call that works on the memory only. -/
def inMemory (c : Command Memory Thrown α) : Method P α :=
  Command.zoom Prod.fst (fun m s => (m, s.2)) c

/-- A call of a method of a member. -/
def inMember (view : P → R) (put : R → P → P) (c : Method R α) : Method P α :=
  Command.zoom (fun s => (s.1, view s.2)) (fun t s => (t.1, put t.2 s.2)) c

variable {E : Thrown → Memory × P → Prop} {s : Memory × P}

@[simp] theorem wp_this {Q : P → Memory × P → Prop} : Command.wp this Q E s ↔ Q s.2 s := Iff.rfl

@[simp] theorem wp_assign {f : P → P} {Q : Unit → Memory × P → Prop} :
    Command.wp (assign f) Q E s ↔ Q () (s.1, f s.2) := Iff.rfl

@[simp] theorem wp_inMemory {c : Command Memory Thrown α} {Q : α → Memory × P → Prop} :
    Command.wp (inMemory c) Q E s ↔
      Command.wp c (fun a m => Q a (m, s.2)) (fun e m => E e (m, s.2)) s.1 :=
  Command.wp_zoom _ _ c

@[simp] theorem wp_inMember {view : P → R} {put : R → P → P} {c : Method R α}
    {Q : α → Memory × P → Prop} :
    Command.wp (inMember view put c) Q E s ↔
      Command.wp c (fun a t => Q a (t.1, put t.2 s.2)) (fun e t => E e (t.1, put t.2 s.2))
        (s.1, view s.2) :=
  Command.wp_zoom _ _ c

end Method

open Method

/-- The members of `buffer`. -/
structure RawBuffer where
  /-- `data_` -/
  data : Nat
  /-- `size_` -/
  size : Nat
  /-- `capacity_` -/
  capacity : Nat
deriving DecidableEq, Repr

namespace RawBuffer

/-- `allocate` -/
def allocate (limit size : Nat) (allocation : Allocation) : Command Memory Thrown Nat := do
  match ← Memory.malloc limit size allocation with
  | none => Command.throw .badAlloc
  | some ptr => pure ptr

/-- `reallocate` -/
def reallocate (limit ptr size : Nat) (allocation : Allocation) :
    Command Memory Thrown Nat := do
  match ← Memory.realloc limit ptr size allocation with
  | none => Command.throw .badAlloc
  | some ptr => pure ptr

/-- `buffer(std::size_t)` -/
def ofSize (limit size : Nat) (allocation : Allocation) : Command Memory Thrown RawBuffer := do
  let capacity ← Command.ofOption (Buffer.calculateNextCapacity 1024 size)
  let data ← allocate limit capacity allocation
  pure { data, size, capacity }

/-- `buffer(const char*, std::size_t)` -/
def ofBytes (limit : Nat) (bytes : Bytes) (allocation : Allocation) :
    Command Memory Thrown RawBuffer := do
  let b ← ofSize limit bytes.length allocation
  Memory.memcpy b.data 0 bytes
  pure b

/-- `resize` -/
def resize (limit size : Nat) (allocation : Allocation) : Method RawBuffer Unit := do
  let b ← this
  if size ≤ b.capacity then assign fun b => { b with size := size }
  else
    let capacity ← Command.ofOption (Buffer.calculateNextCapacity b.capacity size)
    let data ← inMemory (reallocate limit b.data capacity allocation)
    assign fun b => { b with data := data }
    assign fun b => { b with size := size }
    assign fun b => { b with capacity := capacity }

/-- `reserve` -/
def reserve (limit size : Nat) (allocation : Allocation) : Method RawBuffer Unit := do
  let b ← this
  if size ≤ b.capacity then pure ()
  else
    let capacity ← Command.ofOption (Buffer.calculateNextCapacity b.capacity size)
    let data ← inMemory (reallocate limit b.data capacity allocation)
    assign fun b => { b with data := data }
    assign fun b => { b with capacity := capacity }

/-- `consume` -/
def consume (size : Nat) : Method RawBuffer Unit := do
  let b ← this
  if b.size ≤ size then assign fun b => { b with size := 0 }
  else
    let movedSize := b.size - size
    inMemory (Memory.memmove b.data 0 size movedSize)
    assign fun b => { b with size := movedSize }

/-- The caller writes `bytes` at `data() + offset`. -/
def write (offset : Nat) (bytes : Bytes) : Method RawBuffer Unit := do
  let b ← this
  inMemory (Memory.memcpy b.data offset bytes)

/-- The destructor. -/
def destroy : Method RawBuffer Unit := do
  let b ← this
  inMemory (Heap.free b.data)

/-! ## The `Buffer` that an object stands for -/

/-- The members and the block they point to. -/
structure Represents (m : Memory) (b : RawBuffer) (B : Buffer) : Prop where
  block : m.cell b.data = some B.data
  size : b.size = B.size
  capacity : b.capacity = B.capacity

/-- The blocks other than the one at `p` are as they were, and `p'` points to none of
them. -/
structure Frame (m : Memory) (p : Nat) (m' : Memory) (p' : Nat) : Prop where
  cells : ∀ a x, a ≠ p → m.cell a = some x → m'.cell a = some x
  apart : ∀ a x, a ≠ p → m.cell a = some x → a ≠ p'

variable {limit size : Nat} {allocation : Allocation} {m : Memory} {b : RawBuffer} {B : Buffer}

theorem Frame.refl (m : Memory) (p : Nat) : Frame m p m p :=
  ⟨fun _ _ _ h => h, fun _ _ h _ => h⟩

/-- A block that is written where it is. -/
theorem frame_set (m : Memory) (p : Nat) (x : Option Bytes) : Frame m p (m.set p x) p where
  cells a y hne ha := by rw [Heap.cell_set_ne x hne, ha]
  apart a y hne _ := hne

/-- A block that is moved to a new address. -/
theorem frame_move (m : Memory) (p : Nat) (x : Bytes) :
    Frame m p ((m.set p none).push x) m.next where
  cells a y hne ha := by
    have hlt := Heap.lt_next ha
    rw [Heap.cell_push_ne, Heap.cell_set_ne none hne, ha]
    rw [Heap.next_set]
    exact Nat.ne_of_lt hlt
  apart a y _ ha := Nat.ne_of_lt (Heap.lt_next ha)

/-- **`reallocate`** moves the block, or throws and has changed nothing. -/
theorem wp_reallocate {ptr : Nat} {old : Bytes} (hold : m.cell ptr = some old)
    {Q : Nat → Memory → Prop} {E : Thrown → Memory → Prop}
    (hQ : ∀ data, Buffer.reallocate old size (Memory.granted limit size allocation) = some data →
      Q m.next ((m.set ptr none).push data))
    (hE : E .badAlloc m) : Command.wp (reallocate limit ptr size allocation) Q E m := by
  unfold reallocate Memory.realloc
  simp only [Command.wp_bind, Heap.wp_read hold]
  cases hdata : Buffer.reallocate old size (Memory.granted limit size allocation) with
  | none => exact hE
  | some data =>
    simp only [Command.wp_bind, Heap.wp_free hold, Heap.wp_alloc, Command.wp_pure, Heap.next_set]
    exact hQ data hdata

/-- What an allocation that was granted gives. -/
theorem le_limit_of_reallocate {old data : Bytes}
    (h : Buffer.reallocate old size (Memory.granted limit size allocation) = some data) :
    size ≤ limit := by
  unfold Memory.granted at h
  split at h
  · assumption
  · cases h

/-- The object after its block has been moved to a larger one. -/
theorem represents_move {data : Bytes} {next : Nat} (hnext : B.data.length ≤ next)
    (hdata : Buffer.reallocate B.data next (Memory.granted limit next allocation) = some data) :
    Represents ((m.set b.data none).push data) ⟨m.next, size, next⟩ ⟨data, size⟩ where
  block := by
    have hself := Heap.cell_push_self (m.set b.data none) data
    rwa [Heap.next_set] at hself
  size := rfl
  capacity := (Buffer.reallocate_spec hdata hnext).1.symm

/-- **`resize`** does what `Buffer.resize` does, or throws and has changed nothing. -/
theorem wp_resize (h : Represents m b B) (hpos : 0 < B.capacity)
    {Q : Unit → Memory × RawBuffer → Prop} {E : Thrown → Memory × RawBuffer → Prop}
    (hQ : ∀ m' b' B' answer, B.resize size answer = some B' → Represents m' b' B' →
      Frame m b.data m' b'.data → B'.capacity ≤ max B.capacity limit → Q () (m', b'))
    (hE : E .badAlloc (m, b)) : Command.wp (resize limit size allocation) Q E (m, b) := by
  unfold resize
  simp only [Command.wp_bind, wp_this, Command.wp_ite, wp_assign, h.capacity]
  split
  · rename_i hle
    exact hQ m _ { B with size := size } none (if_pos hle) ⟨h.block, rfl, rfl⟩
      (.refl m b.data) (Nat.le_max_left _ _)
  · rename_i hgt
    obtain ⟨next, hnext⟩ := Buffer.exists_calculateNextCapacity hpos size
    have hle : B.data.length ≤ next := by
      have := Buffer.le_of_calculateNextCapacity hnext
      unfold Buffer.capacity at hgt
      omega
    rw [hnext]
    simp only [Command.wp_ofOption_some, wp_inMemory]
    refine wp_reallocate h.block ?_ hE
    intro data hdata
    have hmoved : Represents ((m.set b.data none).push data) ⟨m.next, size, next⟩ ⟨data, size⟩ :=
      represents_move hle hdata
    refine hQ _ _ ⟨data, size⟩ (Memory.granted limit next allocation) ?_ hmoved
      (frame_move m b.data data) ?_
    · rw [Buffer.resize, if_neg hgt]
      simp only [hnext, hdata, Option.bind_eq_bind, Option.bind_some]
      rfl
    · rw [← hmoved.capacity]
      exact Nat.le_trans (le_limit_of_reallocate hdata) (Nat.le_max_right _ _)

/-- **`reserve`** does what `Buffer.reserve` does, or throws and has changed nothing. -/
theorem wp_reserve (h : Represents m b B) (hpos : 0 < B.capacity)
    {Q : Unit → Memory × RawBuffer → Prop} {E : Thrown → Memory × RawBuffer → Prop}
    (hQ : ∀ m' b' B' answer, B.reserve size answer = some B' → Represents m' b' B' →
      Frame m b.data m' b'.data → Q () (m', b'))
    (hE : E .badAlloc (m, b)) : Command.wp (reserve limit size allocation) Q E (m, b) := by
  unfold reserve
  simp only [Command.wp_bind, wp_this, Command.wp_ite, wp_assign, Command.wp_pure, h.capacity]
  split
  · rename_i hle
    exact hQ m b B none (if_pos hle) h (.refl m b.data)
  · rename_i hgt
    obtain ⟨next, hnext⟩ := Buffer.exists_calculateNextCapacity hpos size
    have hle : B.data.length ≤ next := by
      have := Buffer.le_of_calculateNextCapacity hnext
      unfold Buffer.capacity at hgt
      omega
    rw [hnext]
    simp only [Command.wp_ofOption_some, wp_inMemory, h.size]
    refine wp_reallocate h.block ?_ hE
    intro data hdata
    refine hQ _ _ ⟨data, B.size⟩ (Memory.granted limit next allocation) ?_
      (represents_move hle hdata) (frame_move m b.data data)
    rw [Buffer.reserve, if_neg hgt]
    simp only [hnext, hdata, Option.bind_eq_bind, Option.bind_some]
    rfl

/-- The block is written where it is. -/
theorem represents_set (h : Represents m b B) (data : Bytes) (size : Nat)
    (hlength : data.length = B.capacity) :
    Represents (m.set b.data (some data)) { b with size := size } ⟨data, size⟩ where
  block := Heap.cell_set_self (Heap.lt_next h.block) _
  size := rfl
  capacity := h.capacity.trans hlength.symm

/-- **`consume`** does what `Buffer.consume` does, and `memmove` stays in the block. -/
theorem wp_consume (h : Represents m b B) (hwf : B.Wf)
    {Q : Unit → Memory × RawBuffer → Prop} {E : Thrown → Memory × RawBuffer → Prop}
    (hQ : ∀ m' b', Represents m' b' (B.consume size) → Frame m b.data m' b'.data →
      b'.data = b.data → Q () (m', b')) :
    Command.wp (consume size) Q E (m, b) := by
  have hcap : B.size ≤ B.data.length := hwf
  unfold consume
  simp only [Command.wp_bind, wp_this, Command.wp_ite, wp_assign, h.size]
  split
  · rename_i hle
    refine hQ m _ ?_ (.refl m b.data) rfl
    rw [Buffer.consume, if_pos hle]
    exact ⟨h.block, rfl, h.capacity⟩
  · rename_i hgt
    have hin : 0 + (B.size - size) ≤ B.data.length ∧ size + (B.size - size) ≤ B.data.length := by
      omega
    have hcapacity := Buffer.capacity_consume hwf size
    simp only [wp_inMemory, Memory.memmove, Command.wp_bind, Heap.wp_read h.block, if_pos hin,
      Heap.wp_write h.block]
    rw [Buffer.consume, if_neg hgt] at hcapacity
    refine hQ _ _ ?_ (frame_set m b.data _) rfl
    rw [Buffer.consume, if_neg hgt]
    have hset := represents_set h _ (B.size - size) hcapacity
    simpa only [List.take_zero, List.nil_append, Nat.zero_add, h.size] using hset

/-- **A write inside the block** does what `Buffer.store` does. -/
theorem wp_write (h : Represents m b B) {offset : Nat} {bytes : Bytes}
    (hin : offset + bytes.length ≤ B.capacity)
    {Q : Unit → Memory × RawBuffer → Prop} {E : Thrown → Memory × RawBuffer → Prop}
    (hQ : ∀ m', Represents m' b (B.store offset bytes) → Frame m b.data m' b.data →
      Q () (m', b)) :
    Command.wp (write offset bytes) Q E (m, b) := by
  have hin' : offset + bytes.length ≤ B.data.length := hin
  have hlength : (B.store offset bytes).data.length = B.capacity := Buffer.capacity_store hin
  unfold write
  simp only [Command.wp_bind, wp_this, wp_inMemory, Memory.memcpy, Heap.wp_read h.block,
    if_pos hin', Heap.wp_write h.block]
  refine hQ _ ?_ (frame_set m b.data _)
  have hset := represents_set h _ B.size hlength
  exact ⟨hset.block, h.size, hset.capacity⟩

/-- **The constructor** does what `Buffer.ofSize` does, or throws and has allocated
nothing. -/
theorem wp_ofSize {Q : RawBuffer → Memory → Prop} {E : Thrown → Memory → Prop}
    (hQ : ∀ m' b' B' answer, Buffer.ofSize size answer = some B' → Represents m' b' B' →
      Frame m m.next m' b'.data → B'.capacity ≤ limit → Q b' m')
    (hE : E .badAlloc m) : Command.wp (ofSize limit size allocation) Q E m := by
  obtain ⟨next, hnext⟩ := Buffer.exists_calculateNextCapacity (show 0 < 1024 by decide) size
  unfold ofSize allocate Memory.malloc
  rw [hnext]
  simp only [Command.wp_bind, Command.wp_ofOption_some]
  cases hdata : Buffer.reallocate [] next (Memory.granted limit next allocation) with
  | none => exact hE
  | some data =>
    have hlength := (Buffer.reallocate_spec hdata (Nat.zero_le _)).1
    simp only [Command.wp_bind, Heap.wp_alloc, Command.wp_pure]
    refine hQ _ _ ⟨data, size⟩ (Memory.granted limit next allocation) ?_
      ⟨Heap.cell_push_self m data, rfl, hlength.symm⟩ ⟨?_, ?_⟩ ?_
    · simp only [Buffer.ofSize, hnext, hdata, Option.bind_eq_bind, Option.bind_some]
      rfl
    · intro a x hne ha
      rw [Heap.cell_push_ne data hne, ha]
    · intro a x hne _
      exact hne
    · show data.length ≤ limit
      rw [hlength]
      exact le_limit_of_reallocate hdata

/-- **The constructor from data** puts the bytes into the new block. -/
theorem wp_ofBytes {bytes : Bytes} {Q : RawBuffer → Memory → Prop} {E : Thrown → Memory → Prop}
    (hQ : ∀ m' b' B' answer, Buffer.ofSize bytes.length answer = some B' →
      Represents m' b' (B'.store 0 bytes) → Q b' m')
    (hE : E .badAlloc m) : Command.wp (ofBytes limit bytes allocation) Q E m := by
  unfold ofBytes
  simp only [Command.wp_bind]
  refine wp_ofSize ?_ hE
  intro m' b' B' answer hmade h _ _
  obtain ⟨hsize, hwf, -⟩ := Buffer.ofSize_spec hmade
  have hin : 0 + bytes.length ≤ B'.capacity := by
    rw [Nat.zero_add, ← hsize]
    exact hwf
  have hwrite : Command.wp (write 0 bytes) (fun _ s => Q s.2 s.1) (fun _ _ => False) (m', b') := by
    refine wp_write h hin ?_
    intro m'' h'' _
    exact hQ m'' b' B' answer hmade h''
  simp only [write, Command.wp_bind, wp_this, wp_inMemory] at hwrite
  exact Command.wp_mono hwrite (fun _ _ hq => hq) (fun _ _ hfalse => hfalse.elim)

/-! ## As a sequence of bytes -/

/-- The bytes in use. -/
def content (m : Memory) (b : RawBuffer) : Bytes := ((m.cell b.data).getD []).take b.size

/-- The block is there, has the capacity that the member says, and holds the size. -/
structure Sound (m : Memory) (b : RawBuffer) : Prop where
  block : ∃ data, m.cell b.data = some data ∧ data.length = b.capacity
  size : b.size ≤ b.capacity
  capacity : 1024 ≤ b.capacity

theorem Represents.sound (h : Represents m b B) (hwf : B.Wf) (hmin : 1024 ≤ B.capacity) :
    Sound m b where
  block := ⟨B.data, h.block, h.capacity.symm⟩
  size := by
    rw [h.size, h.capacity]
    exact hwf
  capacity := h.capacity ▸ hmin

theorem Represents.content_eq (h : Represents m b B) : content m b = B.data.take B.size := by
  simp only [content, h.block, h.size, Option.getD_some]

/-- An object that is sound stands for a buffer. -/
theorem Sound.exists_represents (h : Sound m b) :
    ∃ B, Represents m b B ∧ B.Wf ∧ 1024 ≤ B.capacity := by
  obtain ⟨data, hblock, hlength⟩ := h.block
  have hcapacity : b.capacity = Buffer.capacity ⟨data, b.size⟩ := hlength.symm
  refine ⟨⟨data, b.size⟩, ⟨hblock, rfl, hcapacity⟩, ?_, hcapacity ▸ h.capacity⟩
  show b.size ≤ Buffer.capacity ⟨data, b.size⟩
  rw [← hcapacity]
  exact h.size

theorem Sound.length_content (h : Sound m b) : (content m b).length = b.size := by
  obtain ⟨data, hblock, hlength⟩ := h.block
  have hsize := h.size
  rw [content, hblock, Option.getD_some, List.length_take]
  omega

/-- The operations on a buffer that was constructed. -/
inductive Op where
  | resize (size : Nat) (allocation : Allocation)
  | reserve (size : Nat) (allocation : Allocation)
  | consume (size : Nat)
  /-- the caller writes through `data()` -/
  | write (offset : Nat) (bytes : Bytes)

def Op.perform (limit : Nat) : Op → Method RawBuffer Unit
  | .resize size allocation => RawBuffer.resize limit size allocation
  | .reserve size allocation => RawBuffer.reserve limit size allocation
  | .consume size => RawBuffer.consume size
  | .write offset bytes => RawBuffer.write offset bytes

/-- Callers write inside of `[0, size())`. -/
def Op.Admissible (b : RawBuffer) : Op → Prop
  | .write offset bytes => offset + bytes.length ≤ b.size
  | _ => True

instance (b : RawBuffer) (op : Op) : Decidable (op.Admissible b) := by
  cases op <;> unfold Op.Admissible <;> infer_instance

/-- What an operation that returns makes of the bytes. -/
def Op.Returns (old new : Bytes) : Op → Prop
  | .resize size _ =>
      new.length = size ∧ new.take (min size old.length) = old.take (min size old.length)
  | .reserve _ _ => new = old
  | .consume size => new = old.drop (min size old.length)
  | .write offset bytes => new = old.take offset ++ bytes ++ old.drop (offset + bytes.length)

/-- **What an operation does**: it has an outcome, the object is sound after it and has no
smaller capacity. If it returns, the bytes are as they should be; if it throws, that is
`std::bad_alloc` and nothing has changed. -/
structure Op.Behaves (op : Op) (m : Memory) (b : RawBuffer) (result : Except Thrown Unit)
    (m' : Memory) (b' : RawBuffer) : Prop where
  sound : Sound m' b'
  capacity : b.capacity ≤ b'.capacity
  returns : result = .ok () → op.Returns (content m b) (content m' b')
  throws : ∀ e, result = .error e → e = .badAlloc ∧ content m' b' = content m b ∧
    b'.size = b.size ∧ b'.capacity = b.capacity

theorem Op.behaves_of_returns {op : Op} {m' : Memory} {b' : RawBuffer} (hsound : Sound m' b')
    (hcapacity : b.capacity ≤ b'.capacity) (hreturns : op.Returns (content m b) (content m' b')) :
    op.Behaves m b (.ok ()) m' b' :=
  ⟨hsound, hcapacity, fun _ => hreturns, fun _ he => by cases he⟩

theorem Op.behaves_of_badAlloc (op : Op) (hsound : Sound m b) :
    op.Behaves m b (.error .badAlloc) m b where
  sound := hsound
  capacity := Nat.le_refl _
  returns he := by cases he
  throws e he := by
    cases he
    exact ⟨rfl, rfl, rfl, rfl⟩

/-- **Every operation behaves.** -/
theorem Op.wp_perform (limit : Nat) (op : Op) (hsound : Sound m b) (hop : op.Admissible b) :
    Command.wp (op.perform limit) (fun _ s => op.Behaves m b (.ok ()) s.1 s.2)
      (fun e s => op.Behaves m b (.error e) s.1 s.2) (m, b) := by
  obtain ⟨B, h, hwf, hmin⟩ := hsound.exists_represents
  have hpos : 0 < B.capacity := by omega
  have hold := h.content_eq
  have hsize : B.size ≤ B.data.length := hwf
  cases op with
  | resize size allocation =>
    refine wp_resize h hpos ?_ (behaves_of_badAlloc _ hsound)
    intro m' b' B' answer hresize h' _ _
    obtain ⟨hnew, hwf', hkeep⟩ := Buffer.resize_spec hresize
    have hgrow := Buffer.capacity_le_resize hresize
    have hsound' := h'.sound hwf' (Nat.le_trans hmin hgrow)
    refine behaves_of_returns hsound' (by rw [h.capacity, h'.capacity]; exact hgrow) ⟨?_, ?_⟩
    · rw [hsound'.length_content, h'.size, hnew]
    · rw [hsound.length_content, h'.content_eq, hold, hnew, h.size, List.take_take, List.take_take,
        Nat.min_eq_left (Nat.min_le_left _ _), Nat.min_eq_left (Nat.min_le_right _ _)]
      exact hkeep _ (Nat.min_le_left _ _) (Nat.le_trans (Nat.min_le_right _ _) hwf)
  | reserve size allocation =>
    refine wp_reserve h hpos ?_ (behaves_of_badAlloc _ hsound)
    intro m' b' B' answer hreserve h' _
    obtain ⟨hnew, -, hgrow, hkeep⟩ := Buffer.reserve_spec hwf hreserve
    have hwf' : B'.Wf := by
      show B'.size ≤ B'.capacity
      rw [hnew]
      exact Nat.le_trans hwf hgrow
    refine behaves_of_returns (h'.sound hwf' (Nat.le_trans hmin hgrow))
      (by rw [h.capacity, h'.capacity]; exact hgrow) ?_
    show content m' b' = content m b
    rw [h'.content_eq, hold, hnew, hkeep]
  | consume size =>
    refine wp_consume h hwf ?_
    intro m' b' h' _ _
    obtain ⟨hnew, hwf', hkeep⟩ := Buffer.consume_spec hwf size
    have hsame := Buffer.capacity_consume hwf size
    refine behaves_of_returns (h'.sound hwf' (hsame ▸ hmin))
      (by rw [h.capacity, h'.capacity, hsame]) ?_
    show content m' b' = (content m b).drop (min size (content m b).length)
    rw [hsound.length_content, h'.content_eq, hold, hnew, hkeep _ (Nat.le_refl _), h.size,
      List.drop_take]
    by_cases hle : size ≤ B.size
    · rw [Nat.min_eq_left hle]
    · simp [Nat.le_of_not_le hle]
  | write offset bytes =>
    have hop' : offset + bytes.length ≤ B.size := by rw [← h.size]; exact hop
    refine wp_write h (Nat.le_trans hop' hwf) ?_
    intro m' h' _
    have hwf' := Buffer.wf_store hwf offset bytes
    have hgrow := Buffer.capacity_le_store B offset bytes
    refine behaves_of_returns (h'.sound hwf' (Nat.le_trans hmin hgrow)) (Nat.le_refl _) ?_
    show content m' b =
      (content m b).take offset ++ bytes ++ (content m b).drop (offset + bytes.length)
    rw [h'.content_eq, hold]
    show (B.data.take offset ++ bytes ++ B.data.drop (offset + bytes.length)).take B.size = _
    have hlength : (B.data.take offset ++ bytes).length = offset + bytes.length := by
      rw [List.length_append, List.length_take]
      omega
    rw [List.take_append, hlength, List.take_of_length_le (by omega), List.take_take,
      Nat.min_eq_left (by omega), List.drop_take]

/-! ## The life of an object -/

/-- The memory, and the object from its construction to its destruction. -/
structure World where
  memory : Memory := {}
  object : Option RawBuffer := none
deriving DecidableEq, Repr

/-- What happens to the object; an `allocation` is the allocator's answer. -/
inductive Event where
  | construct (size : Nat) (allocation : Allocation)
  | constructFrom (bytes : Bytes) (allocation : Allocation)
  | op (op : Op)
  | destroy

/-- The two constructors. -/
def Event.constructor (limit : Nat) : Event → Option (Command Memory Thrown RawBuffer)
  | .construct size allocation => some (ofSize limit size allocation)
  | .constructFrom bytes allocation => some (ofBytes limit bytes allocation)
  | _ => none

/-- A constructor that throws makes no object. -/
def constructed : Except Thrown RawBuffer × Memory → World
  | (.ok b, m) => ⟨m, some b⟩
  | (.error _, m) => ⟨m, none⟩

/-- An operation that throws leaves the object in use. -/
def operated (out : Except Thrown Unit × Memory × RawBuffer) : World :=
  ⟨out.2.1, some out.2.2⟩

/-- One event. It is not enabled if the object is not there, if the operation is not
admissible, or if its behaviour is undefined. -/
def step (limit : Nat) (s : World) (e : Event) : Option World :=
  match s.object with
  | none => do
      let make ← e.constructor limit
      let out ← make.exec s.memory
      some (constructed out)
  | some b =>
      match e with
      | .op op =>
          if op.Admissible b then ((op.perform limit).exec (s.memory, b)).map operated else none
      | .destroy => (destroy.exec (s.memory, b)).map fun out => ⟨out.2.1, none⟩
      | _ => none

def machine (limit : Nat) : Machine World Event where
  init := {}
  step := step limit

/-- The object is sound as long as there is one. -/
def World.Inv (s : World) : Prop := ∀ b, s.object = some b → Sound s.memory b

/-- **Every operation has an outcome**, and behaves. -/
theorem Op.exists_behaves (limit : Nat) (op : Op) (hsound : Sound m b) (hop : op.Admissible b) :
    ∃ result m' b', (op.perform limit).exec (m, b) = some (result, m', b') ∧
      op.Behaves m b result m' b' := by
  rcases Command.exists_outcome (op.wp_perform limit hsound hop) with
    ⟨_, ⟨m', b'⟩, hexec, h⟩ | ⟨e, ⟨m', b'⟩, hexec, h⟩
  · exact ⟨.ok (), m', b', hexec, h⟩
  · exact ⟨.error e, m', b', hexec, h⟩

/-- What a constructor makes of its arguments. -/
def Event.Makes (content : Bytes) : Event → Prop
  | .construct size _ => content.length = size
  | .constructFrom bytes _ => content = bytes
  | _ => False

/-- **A constructor** makes a sound object, or throws `std::bad_alloc` with the memory as it
was. -/
theorem Event.wp_constructor {limit : Nat} {e : Event} {make : Command Memory Thrown RawBuffer}
    (hmake : e.constructor limit = some make) :
    Command.wp make (fun b m' => Sound m' b ∧ e.Makes (content m' b))
      (fun thrown m' => thrown = .badAlloc ∧ m' = m) m := by
  cases e with
  | construct size allocation =>
    cases hmake
    refine wp_ofSize ?_ ⟨rfl, rfl⟩
    intro m' b' B' answer hmade h _ _
    obtain ⟨hsize, hwf, hmin⟩ := Buffer.ofSize_spec hmade
    have hsound := h.sound hwf hmin
    refine ⟨hsound, ?_⟩
    show (content m' b').length = size
    rw [hsound.length_content, h.size, hsize]
  | constructFrom bytes allocation =>
    cases hmake
    refine wp_ofBytes ?_ ⟨rfl, rfl⟩
    intro m' b' B' answer hmade h
    obtain ⟨hsize, hwf, hmin⟩ := Buffer.ofSize_spec hmade
    have hgrow := Buffer.capacity_le_store B' 0 bytes
    refine ⟨h.sound (Buffer.wf_store hwf 0 bytes) (Nat.le_trans hmin hgrow), ?_⟩
    show content m' b' = bytes
    have hfirst := Buffer.take_store (Nat.zero_le B'.capacity) bytes
    rw [Nat.zero_add, List.take_zero, List.nil_append] at hfirst
    rw [h.content_eq]
    show (B'.store 0 bytes).data.take B'.size = bytes
    rw [hsize, hfirst]
  | op op => cases hmake
  | destroy => cases hmake

/-- The destructor frees the block, which is there. -/
theorem wp_destroy {Q : Unit → Memory × RawBuffer → Prop} {E : Thrown → Memory × RawBuffer → Prop}
    (h : Sound m b) (hQ : Q () (m.set b.data none, b)) : Command.wp destroy Q E (m, b) := by
  obtain ⟨data, hblock, -⟩ := h.block
  simp only [destroy, Command.wp_bind, wp_this, wp_inMemory, Heap.wp_free hblock]
  exact hQ

/-- **One event** keeps the object sound. -/
theorem inv_step {limit : Nat} {s t : World} {e : Event} (hs : s.Inv)
    (hstep : step limit s e = some t) : t.Inv := by
  unfold step at hstep
  split at hstep
  · simp only [Option.bind_eq_bind, Option.bind_eq_some_iff] at hstep
    obtain ⟨make, hmake, out, hout, ht⟩ := hstep
    cases ht
    rcases Command.exists_outcome (Event.wp_constructor (m := s.memory) hmake) with
      ⟨b, m', hexec, hsound, -⟩ | ⟨thrown, m', hexec, -, -⟩
    · rw [hout] at hexec
      cases hexec
      intro b' hb'
      cases hb'
      exact hsound
    · rw [hout] at hexec
      cases hexec
      intro b' hb'
      cases hb'
  · rename_i b hb
    cases e with
    | construct size allocation => cases hstep
    | constructFrom bytes allocation => cases hstep
    | op op =>
      by_cases hop : op.Admissible b
      · obtain ⟨result, m', b', hexec, hbehaves⟩ := op.exists_behaves limit (hs b hb) hop
        simp only [if_pos hop, hexec, Option.map_some, Option.some.injEq] at hstep
        rw [← hstep]
        intro b'' hb''
        cases hb''
        exact hbehaves.sound
      · simp only [if_neg hop] at hstep
        cases hstep
    | destroy =>
      obtain ⟨out, -, ht⟩ := Option.map_eq_some_iff.mp hstep
      rw [← ht]
      intro b' hb'
      cases hb'

/-- A reallocation fails, the next one succeeds, and bytes are taken from the front. -/
def grown : List Event :=
  let fresh : Allocation := some fun _ => 0
  [.constructFrom [1, 2, 3] fresh, .op (.resize 2000 none), .op (.reserve 2000 fresh),
    .op (.write 1 [7, 8]), .op (.consume 2)]

/-- The bytes in use and the capacity. -/
def World.view (s : World) : Option (Bytes × Nat) :=
  s.object.map fun b => (content s.memory b, b.capacity)

end RawBuffer

end MpRpc.Transport
