import MpRpc.ErrorInfo

/-!
# Buffer — the growable byte buffer of the streaming parser

`mprpc::buffer` is an allocated block and the number of bytes of it that are
in use. Growing the block goes through `realloc`, which keeps the old bytes,
adds bytes of any value, and may fail; a failure is `std::bad_alloc` and is
`none` here.
-/

namespace MpRpc.Transport

/-- `buffer`: the block `data_`, which has `capacity_` bytes, and `size_`. -/
structure Buffer where
  data : Bytes
  size : Nat
deriving DecidableEq, Repr

/-- What the allocator answers: nothing, or the values of the bytes it adds. -/
abbrev Allocation := Option (Nat → UInt8)

namespace Buffer

/-- `capacity()` -/
def capacity (b : Buffer) : Nat := b.data.length

/-- `max_size()` -/
def maxSize : Nat := 2 ^ 64 - 1

/-- The loop of `calculate_next_capacity`, for at most `fuel` rounds. -/
def growWhile : Nat → Nat → Nat → Option Nat
  | 0, _, _ => none
  | fuel + 1, capacity, requiredSize =>
      if capacity < requiredSize then growWhile fuel (capacity * 2 % 2 ^ 64) requiredSize
      else some capacity

/-- `calculate_next_capacity`. A capacity that is not zero is doubled at most 63
times before it passes half of `max_size()`. -/
def calculateNextCapacity (currentCapacity requiredSize : Nat) : Option Nat :=
  if requiredSize > maxSize / 2 then some requiredSize
  else growWhile 64 currentCapacity requiredSize

/-- The capacities that the loop multiplies, in order. -/
def growOperands : Nat → Nat → Nat → List Nat
  | 0, _, _ => []
  | fuel + 1, capacity, requiredSize =>
      if capacity < requiredSize then
        capacity :: growOperands fuel (capacity * 2 % 2 ^ 64) requiredSize
      else []

/-- The capacities that `calculate_next_capacity` multiplies: none if it returns in front
of the loop. -/
def operands (currentCapacity requiredSize : Nat) : List Nat :=
  if requiredSize > maxSize / 2 then [] else growOperands 64 currentCapacity requiredSize

/-- `reallocate` -/
def reallocate (data : Bytes) (size : Nat) (allocation : Allocation) : Option Bytes :=
  allocation.map fun fresh => data.take size ++ (List.range (size - data.length)).map fresh

/-- The constructor for `size` bytes. -/
def ofSize (size : Nat) (allocation : Allocation) : Option Buffer := do
  let capacity ← calculateNextCapacity 1024 size
  let data ← reallocate [] capacity allocation
  return ⟨data, size⟩

/-- What the default constructor makes of the bytes it is given. -/
def empty (fresh : Nat → UInt8) : Buffer := ⟨(List.range 1024).map fresh, 0⟩

theorem ofSize_zero (fresh : Nat → UInt8) : ofSize 0 (some fresh) = some (empty fresh) := by
  simp [ofSize, calculateNextCapacity, growWhile, reallocate, empty]

/-- `resize` -/
def resize (b : Buffer) (size : Nat) (allocation : Allocation) : Option Buffer :=
  if size ≤ b.capacity then some { b with size := size }
  else do
    -- the members are assigned only after `realloc` has succeeded
    let capacity ← calculateNextCapacity b.capacity size
    let data ← reallocate b.data capacity allocation
    return ⟨data, size⟩

/-- `reserve` -/
def reserve (b : Buffer) (size : Nat) (allocation : Allocation) : Option Buffer :=
  if size ≤ b.capacity then some b
  else do
    let capacity ← calculateNextCapacity b.capacity size
    let data ← reallocate b.data capacity allocation
    return ⟨data, b.size⟩

/-- `consume`, whose `memmove` leaves the bytes past the moved ones as they were. -/
def consume (b : Buffer) (size : Nat) : Buffer :=
  if b.size ≤ size then { b with size := 0 }
  else
    let movedSize := b.size - size
    { data := (b.data.drop size).take movedSize ++ b.data.drop movedSize, size := movedSize }

/-- Bytes written into the block from `offset` on. -/
def store (b : Buffer) (offset : Nat) (bytes : Bytes) : Buffer :=
  { b with data := b.data.take offset ++ bytes ++ b.data.drop (offset + bytes.length) }

/-- The bytes in use lie inside the block. -/
def Wf (b : Buffer) : Prop := b.size ≤ b.capacity

/-! ## Growing -/

theorem le_of_growWhile {fuel capacity requiredSize next : Nat}
    (h : growWhile fuel capacity requiredSize = some next) : requiredSize ≤ next := by
  induction fuel generalizing capacity with
  | zero => cases h
  | succ fuel ih =>
    rw [growWhile] at h
    split at h
    · exact ih h
    · rename_i hge
      cases h
      omega

theorem le_of_calculateNextCapacity {currentCapacity requiredSize next : Nat}
    (h : calculateNextCapacity currentCapacity requiredSize = some next) :
    requiredSize ≤ next := by
  rw [calculateNextCapacity] at h
  split at h
  · cases h
    exact Nat.le_refl _
  · exact le_of_growWhile h

/-- A larger block begins with the bytes of the old one. -/
theorem reallocate_spec {data data' : Bytes} {size : Nat} {allocation : Allocation}
    (h : reallocate data size allocation = some data') (hle : data.length ≤ size) :
    data'.length = size ∧ ∀ k ≤ data.length, data'.take k = data.take k := by
  obtain ⟨fresh, -, rfl⟩ := Option.map_eq_some_iff.mp h
  rw [List.take_of_length_le hle]
  refine ⟨?_, ?_⟩
  · rw [List.length_append, List.length_map, List.length_range]
    omega
  · intro k hk
    exact List.take_append_of_le_length hk

/-- **What `resize` keeps**: the block holds the new size, and what was in front
of the new size is still there. -/
theorem resize_spec {b b' : Buffer} {size : Nat} {allocation : Allocation}
    (h : b.resize size allocation = some b') :
    b'.size = size ∧ b'.Wf ∧ ∀ k ≤ size, k ≤ b.capacity → b'.data.take k = b.data.take k := by
  rw [resize] at h
  split at h
  · rename_i hle
    cases h
    exact ⟨rfl, hle, fun k _ _ => rfl⟩
  · rename_i hgt
    simp only [Option.bind_eq_bind, Option.bind_eq_some_iff] at h
    obtain ⟨next, hnext, data, hdata, hb⟩ := h
    cases hb
    have hle := le_of_calculateNextCapacity hnext
    obtain ⟨hlength, hkeep⟩ := reallocate_spec hdata (by unfold capacity at hgt; omega)
    refine ⟨rfl, ?_, fun k _ hk => hkeep k hk⟩
    show size ≤ data.length
    omega

theorem capacity_le_resize {b b' : Buffer} {size : Nat} {allocation : Allocation}
    (h : b.resize size allocation = some b') : b.capacity ≤ b'.capacity := by
  rw [resize] at h
  split at h
  · cases h
    exact Nat.le_refl _
  · rename_i hgt
    simp only [Option.bind_eq_bind, Option.bind_eq_some_iff] at h
    obtain ⟨next, hnext, data, hdata, hb⟩ := h
    cases hb
    have hle := le_of_calculateNextCapacity hnext
    unfold capacity at hgt
    obtain ⟨hlength, -⟩ := reallocate_spec hdata (by omega)
    show b.data.length ≤ data.length
    omega

/-- **What `reserve` keeps**: the bytes in use. -/
theorem reserve_spec {b b' : Buffer} {size : Nat} {allocation : Allocation} (hb : b.Wf)
    (h : b.reserve size allocation = some b') :
    b'.size = b.size ∧ size ≤ b'.capacity ∧ b.capacity ≤ b'.capacity ∧
      b'.data.take b.size = b.data.take b.size := by
  rw [reserve] at h
  split at h
  · rename_i hle
    cases h
    exact ⟨rfl, hle, Nat.le_refl _, rfl⟩
  · rename_i hgt
    simp only [Option.bind_eq_bind, Option.bind_eq_some_iff] at h
    obtain ⟨next, hnext, data, hdata, hb'⟩ := h
    cases hb'
    have hle := le_of_calculateNextCapacity hnext
    unfold capacity at hgt
    obtain ⟨hlength, hkeep⟩ := reallocate_spec hdata (by omega)
    refine ⟨rfl, ?_, ?_, hkeep b.size hb⟩
    · show size ≤ data.length
      omega
    · show b.data.length ≤ data.length
      omega

/-- **The loop doubles until the size is reached**, and not once more; the guard in front
of it keeps every product below the limit. -/
theorem growWhile_spec {fuel capacity requiredSize : Nat}
    (hreach : requiredSize ≤ capacity * 2 ^ fuel) (hsize : requiredSize ≤ 2 ^ 63) :
    ∃ k, growWhile (fuel + 1) capacity requiredSize = some (capacity * 2 ^ k) ∧
      (∀ x ∈ growOperands (fuel + 1) capacity requiredSize, x * 2 < 2 ^ 64) ∧
      ∀ j, requiredSize ≤ capacity * 2 ^ j → k ≤ j := by
  induction fuel generalizing capacity with
  | zero =>
    have hge : ¬ capacity < requiredSize := by omega
    refine ⟨0, ?_, ?_, fun j _ => Nat.zero_le j⟩
    · rw [growWhile, if_neg hge, Nat.pow_zero, Nat.mul_one]
    · simp [growOperands, hge]
  | succ fuel ih =>
    by_cases hlt : capacity < requiredSize
    · have hmod : capacity * 2 % 2 ^ 64 = capacity * 2 := Nat.mod_eq_of_lt (by omega)
      have hdouble : ∀ k, capacity * 2 * 2 ^ k = capacity * 2 ^ (k + 1) := by
        intro k
        rw [Nat.mul_assoc, ← Nat.pow_succ']
      obtain ⟨k, hgrow, hoperands, hleast⟩ := ih (hdouble fuel ▸ hreach)
      refine ⟨k + 1, ?_, ?_, ?_⟩
      · rw [growWhile, if_pos hlt, hmod, hgrow, hdouble]
      · rw [growOperands, if_pos hlt, hmod, List.forall_mem_cons]
        exact ⟨by omega, hoperands⟩
      · intro j hj
        cases j with
        | zero =>
          rw [Nat.pow_zero, Nat.mul_one] at hj
          omega
        | succ j =>
          have hle := hleast j (by rw [hdouble]; exact hj)
          omega
    · refine ⟨0, ?_, ?_, fun j _ => Nat.zero_le j⟩
      · rw [growWhile, if_neg hlt, Nat.pow_zero, Nat.mul_one]
      · simp [growOperands, hlt]

/-- A capacity that is not zero passes every size that the loop is run for. -/
theorem le_mul_two_pow {capacity requiredSize : Nat} (hpos : 0 < capacity)
    (hle : ¬ requiredSize > maxSize / 2) : requiredSize ≤ capacity * 2 ^ 63 := by
  have hpow : 2 ^ 63 ≤ capacity * 2 ^ 63 := Nat.le_mul_of_pos_left _ hpos
  unfold maxSize at hle
  omega

/-- **The next capacity**: the function returns, no product wraps around, the result holds
the required size, and it is the least doubling of the capacity that does, unless the
required size passes half of the limit. -/
theorem calculateNextCapacity_least {capacity requiredSize : Nat} (hpos : 1 ≤ capacity)
    (hcapacity : capacity < 2 ^ 64) (hsize : requiredSize < 2 ^ 64)
    (hgrow : capacity < requiredSize) :
    ∃ next, calculateNextCapacity capacity requiredSize = some next ∧
      (∀ x ∈ operands capacity requiredSize, x * 2 < 2 ^ 64) ∧
      requiredSize ≤ next ∧ next < 2 ^ 64 ∧
      (requiredSize ≤ (2 ^ 64 - 1) / 2 →
        (∃ k, next = capacity * 2 ^ k) ∧
        ∀ j, requiredSize ≤ capacity * 2 ^ j → next ≤ capacity * 2 ^ j) := by
  by_cases hlarge : requiredSize > maxSize / 2
  · refine ⟨requiredSize, if_pos hlarge, ?_, Nat.le_refl _, hsize, ?_⟩
    · simp [operands, hlarge]
    · intro hle
      unfold maxSize at hlarge
      omega
  · have hhalf : requiredSize ≤ 2 ^ 63 := by unfold maxSize at hlarge; omega
    obtain ⟨k, hnext, hoperands, hleast⟩ := growWhile_spec (le_mul_two_pow hpos hlarge) hhalf
    have hcalc : calculateNextCapacity capacity requiredSize = some (capacity * 2 ^ k) := by
      rw [calculateNextCapacity, if_neg hlarge, hnext]
    have hmin : ∀ j, requiredSize ≤ capacity * 2 ^ j → capacity * 2 ^ k ≤ capacity * 2 ^ j := by
      intro j hj
      exact Nat.mul_le_mul_left _ (Nat.pow_le_pow_right (by omega) (hleast j hj))
    refine ⟨_, hcalc, ?_, le_of_calculateNextCapacity hcalc, ?_, fun _ => ⟨⟨k, rfl⟩, hmin⟩⟩
    · rw [operands, if_neg hlarge]
      exact hoperands
    · -- the last doubling starts below the required size
      cases k with
      | zero => omega
      | succ k =>
        have hbefore : ¬ requiredSize ≤ capacity * 2 ^ k := by
          intro hk
          have := hleast k hk
          omega
        rw [Nat.pow_succ, ← Nat.mul_assoc]
        omega

theorem calculateNextCapacity_least_tenThousand :
    calculateNextCapacity 1024 10000 = some 16384 ∧
      ∃ next, calculateNextCapacity 1024 10000 = some next ∧
        (∀ x ∈ operands 1024 10000, x * 2 < 2 ^ 64) ∧ 10000 ≤ next ∧ next < 2 ^ 64 ∧
        (10000 ≤ (2 ^ 64 - 1) / 2 →
          (∃ k, next = 1024 * 2 ^ k) ∧ ∀ j, 10000 ≤ 1024 * 2 ^ j → next ≤ 1024 * 2 ^ j) :=
  ⟨by decide, calculateNextCapacity_least (by decide) (by decide) (by decide) (by decide)⟩

/-- The loop ends for every size if the capacity is not zero. -/
theorem exists_calculateNextCapacity {capacity : Nat} (hpos : 0 < capacity) (requiredSize : Nat) :
    ∃ next, calculateNextCapacity capacity requiredSize = some next := by
  rw [calculateNextCapacity]
  split
  · exact ⟨_, rfl⟩
  · rename_i hle
    have hhalf : requiredSize ≤ 2 ^ 63 := by unfold maxSize at hle; omega
    obtain ⟨k, hgrow, -⟩ := growWhile_spec (le_mul_two_pow hpos hle) hhalf
    exact ⟨_, hgrow⟩

/-- A capacity of at most half the limit never becomes smaller. -/
theorem capacity_le_calculateNextCapacity {capacity requiredSize next : Nat} (hpos : 0 < capacity)
    (hhalf : capacity ≤ maxSize / 2)
    (h : calculateNextCapacity capacity requiredSize = some next) : capacity ≤ next := by
  rw [calculateNextCapacity] at h
  split at h
  · cases h
    omega
  · rename_i hle
    have hsize : requiredSize ≤ 2 ^ 63 := by unfold maxSize at hle; omega
    obtain ⟨k, hgrow, -⟩ := growWhile_spec (le_mul_two_pow hpos hle) hsize
    rw [hgrow, Option.some.injEq] at h
    rw [← h]
    exact Nat.le_mul_of_pos_right _ (Nat.two_pow_pos k)

/-- **Resizing fails only if the allocator does**, unless the block is empty. -/
theorem exists_resize {b : Buffer} (hb : 0 < b.capacity) (size : Nat) (fresh : Nat → UInt8) :
    ∃ b', b.resize size (some fresh) = some b' := by
  obtain ⟨next, hnext⟩ := exists_calculateNextCapacity hb size
  rw [resize]
  split
  · exact ⟨_, rfl⟩
  · simp [hnext, reallocate]

/-- When resizing throws `std::bad_alloc`. -/
theorem resize_eq_none_iff {b : Buffer} (hb : 0 < b.capacity) {size : Nat}
    {allocation : Allocation} :
    b.resize size allocation = none ↔ ¬ (size ≤ b.capacity ∨ allocation ≠ none) := by
  cases allocation with
  | some fresh =>
    obtain ⟨b', hb'⟩ := exists_resize hb size fresh
    simp [hb']
  | none =>
    rw [resize]
    split
    · rename_i hle
      simp [hle]
    · rename_i hgt
      simp [reallocate, hgt]

/-- **What the constructor makes**: a block of at least 1024 bytes that holds the size. -/
theorem ofSize_spec {b : Buffer} {size : Nat} {allocation : Allocation}
    (h : ofSize size allocation = some b) : b.size = size ∧ b.Wf ∧ 1024 ≤ b.capacity := by
  simp only [ofSize, Option.bind_eq_bind, Option.bind_eq_some_iff] at h
  obtain ⟨next, hnext, data, hdata, hb⟩ := h
  cases hb
  obtain ⟨hlength, -⟩ := reallocate_spec hdata (Nat.zero_le _)
  have hsize := le_of_calculateNextCapacity hnext
  have hmin := capacity_le_calculateNextCapacity (by decide) (by decide) hnext
  exact ⟨rfl, by show size ≤ data.length; omega, by show 1024 ≤ data.length; omega⟩

/-! ## Taking bytes from the front -/

/-- **What `consume` keeps**: the bytes after the first `size`, now in front. -/
theorem consume_spec {b : Buffer} (hb : b.Wf) (size : Nat) :
    (b.consume size).size = b.size - size ∧ (b.consume size).Wf ∧
      ∀ k ≤ b.size - size, (b.consume size).data.take k = (b.data.drop size).take k := by
  have hcap : b.size ≤ b.data.length := hb
  rw [consume]
  split
  · refine ⟨by show 0 = _; omega, Nat.zero_le _, ?_⟩
    intro k hk
    have hk0 : k = 0 := by omega
    simp [hk0]
  · refine ⟨rfl, ?_, ?_⟩
    · show b.size - size ≤ (_ ++ _ : Bytes).length
      simp only [List.length_append, List.length_take, List.length_drop]
      omega
    · intro k hk
      show (_ ++ _ : Bytes).take k = _
      rw [List.take_append_of_le_length (by simp; omega), List.take_take, Nat.min_eq_left hk]

theorem capacity_consume {b : Buffer} (hb : b.Wf) (size : Nat) :
    (b.consume size).capacity = b.capacity := by
  have hcap : b.size ≤ b.data.length := hb
  rw [consume]
  split
  · rfl
  · show (_ ++ _ : Bytes).length = b.data.length
    simp only [List.length_append, List.length_take, List.length_drop]
    omega

/-! ## Writing into the block -/

theorem wf_store {b : Buffer} (hb : b.Wf) (offset : Nat) (bytes : Bytes) :
    (b.store offset bytes).Wf := by
  have hcap : b.size ≤ b.data.length := hb
  show b.size ≤ (_ ++ _ ++ _ : Bytes).length
  simp only [List.length_append, List.length_take, List.length_drop]
  omega

theorem capacity_le_store (b : Buffer) (offset : Nat) (bytes : Bytes) :
    b.capacity ≤ (b.store offset bytes).capacity := by
  show b.data.length ≤ (_ ++ _ ++ _ : Bytes).length
  simp only [List.length_append, List.length_take, List.length_drop]
  omega

theorem capacity_store {b : Buffer} {offset : Nat} {bytes : Bytes}
    (h : offset + bytes.length ≤ b.capacity) : (b.store offset bytes).capacity = b.capacity := by
  have hlength : offset + bytes.length ≤ b.data.length := h
  simp only [capacity, store, List.length_append, List.length_take, List.length_drop]
  omega

theorem take_store {b : Buffer} {offset : Nat} (h : offset ≤ b.capacity) (bytes : Bytes) :
    (b.store offset bytes).data.take (offset + bytes.length) = b.data.take offset ++ bytes := by
  have hcap : offset ≤ b.data.length := h
  show (_ ++ _ ++ _ : Bytes).take _ = _
  rw [List.take_left']
  rw [List.length_append, List.length_take, Nat.min_eq_left hcap]

end Buffer

end MpRpc.Transport
