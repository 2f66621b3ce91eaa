import MpRpc.Framing
import MpRpc.Msgpack.Wire

/-!
# Parse — `msgpack::parse` and `msgpack::unpack`

`context::execute` reads one token after another and keeps a stack of the
containers it is inside of. Its callbacks are modelled as the list of events
it emits: a visitor that never stops the parser sees exactly this list. The
null visitor leaves only the verdict (`parse`), and the object visitor builds
the object (`unpack`).

Two facts carry everything above: a verdict other than "need more bytes" is
final (`framer`), and unpacking inverts packing (`unpack_pack`).
-/

namespace MpRpc.Msgpack

/-- The callbacks of a visitor, in the order of `context::execute`. -/
inductive Event where
  | scalar (s : Scalar)
  | startArray (n : Nat)
  | startArrayItem
  | endArrayItem
  | endArray
  | startMap (n : Nat)
  | startMapKey
  | endMapKey
  | startMapValue
  | endMapValue
  | endMap
deriving DecidableEq, Repr

/-- `msgpack_container_type`. -/
inductive Container where
  | arrayItem
  | mapKey
  | mapValue
deriving DecidableEq, Repr

/-- `unpack_stack::stack_elem`: where the parser is in one container and how
many elements (pairs, for a map) are left in it. -/
structure StackElem where
  type : Container
  rest : Nat
deriving DecidableEq, Repr

/-- `unpack_stack::consume`, run when an element has ended: close the
containers that end with it; no stack is left once the whole object ended. -/
def consume : List StackElem → List Event × Option (List StackElem)
  | [] => ([], none)
  | ⟨.arrayItem, n⟩ :: st =>
      if n ≤ 1 then (.endArrayItem :: .endArray :: (consume st).1, (consume st).2)
      else ([.endArrayItem, .startArrayItem], some (⟨.arrayItem, n - 1⟩ :: st))
  | ⟨.mapKey, n⟩ :: st => ([.endMapKey, .startMapValue], some (⟨.mapValue, n⟩ :: st))
  | ⟨.mapValue, n⟩ :: st =>
      if n ≤ 1 then (.endMapValue :: .endMap :: (consume st).1, (consume st).2)
      else ([.endMapValue, .startMapKey], some (⟨.mapKey, n - 1⟩ :: st))

/-- Inside an array with `n` elements to come: its end, or its next element. -/
def nextItem (n : Nat) (st : List StackElem) : List Event × Option (List StackElem) :=
  if n = 0 then (.endArray :: (consume st).1, (consume st).2)
  else ([.startArrayItem], some (⟨.arrayItem, n⟩ :: st))

/-- Inside a map with `n` pairs to come: its end, or its next key. -/
def nextPair (n : Nat) (st : List StackElem) : List Event × Option (List StackElem) :=
  if n = 0 then (.endMap :: (consume st).1, (consume st).2)
  else ([.startMapKey], some (⟨.mapKey, n⟩ :: st))

/-- The callbacks for one token: `after_visit_proc` for a scalar,
`start_aggregate` for a container. -/
def enter (st : List StackElem) : Token → List Event × Option (List StackElem)
  | .scalar s => (.scalar s :: (consume st).1, (consume st).2)
  | .array n => (.startArray n :: (nextItem n st).1, (nextItem n st).2)
  | .map n => (.startMap n :: (nextPair n st).1, (nextPair n st).2)

/-- `parse_return` of a visitor that never stops the parser. -/
inductive ParseReturn where
  /-- `PARSE_SUCCESS`, with the bytes behind the object -/
  | success (rest : Bytes)
  /-- `PARSE_CONTINUE` -/
  | more
  /-- `PARSE_PARSE_ERROR` -/
  | parseError
deriving DecidableEq, Repr

/-- `context::execute`. Every round reads at least one byte, so the length of
the input is enough fuel. -/
def execute : Nat → List StackElem → Bytes → List Event × ParseReturn
  | 0, _, _ => ([], .more)
  | fuel + 1, st, bs =>
      match lex bs with
      | .short => ([], .more)
      | .bad => ([], .parseError)
      | .token t rest =>
          match enter st t with
          | (evs, none) => (evs, .success rest)
          | (evs, some st') =>
              (evs ++ (execute fuel st' rest).1, (execute fuel st' rest).2)

/-- The events and the verdict of `msgpack::parse` on the whole input. -/
def parseEvents (bs : Bytes) : List Event × ParseReturn :=
  execute bs.length [] bs

/-! ## Rounds of the parser -/

/-- The parser after a token: finished, or `fuel` more rounds on the rest. -/
def proceed (fuel : Nat) (p : List Event × Option (List StackElem)) (bs : Bytes) :
    List Event × ParseReturn :=
  match p.2 with
  | none => (p.1, .success bs)
  | some st => (p.1 ++ (execute fuel st bs).1, (execute fuel st bs).2)

theorem execute_token {bs rest : Bytes} {t : Token} (h : lex bs = .token t rest)
    (fuel : Nat) (st : List StackElem) :
    execute (fuel + 1) st bs = proceed fuel (enter st t) rest := by
  simp only [execute, h, proceed]
  split <;> simp_all

/-- A success stays a success, with the same events, whatever follows and
however much fuel is left over. -/
theorem execute_append_success {fuel : Nat} {st : List StackElem} {bs r : Bytes}
    {evs : List Event} (h : execute fuel st bs = (evs, .success r)) (k : Nat) (xs : Bytes) :
    execute (fuel + k) st (bs ++ xs) = (evs, .success (r ++ xs)) := by
  induction fuel generalizing st bs evs with
  | zero => simp [execute] at h
  | succ fuel ih =>
    cases hl : lex bs with
    | short => simp [execute, hl] at h
    | bad => simp [execute, hl] at h
    | token t rest =>
      rw [execute_token hl] at h
      rw [Nat.add_right_comm, execute_token (lex_append hl xs)]
      unfold proceed at h ⊢
      cases he : (enter st t).2 with
      | none =>
        simp only [he, Prod.mk.injEq, ParseReturn.success.injEq] at h ⊢
        exact ⟨h.1, by rw [h.2]⟩
      | some st' =>
        simp only [he, Prod.mk.injEq] at h ⊢
        have hx : execute fuel st' rest = ((execute fuel st' rest).1, .success r) :=
          Prod.ext rfl h.2
        rw [ih hx]
        exact ⟨h.1, rfl⟩

/-- An error stays an error. -/
theorem execute_append_error {fuel : Nat} {st : List StackElem} {bs : Bytes}
    (h : (execute fuel st bs).2 = .parseError) (k : Nat) (xs : Bytes) :
    (execute (fuel + k) st (bs ++ xs)).2 = .parseError := by
  induction fuel generalizing st bs with
  | zero => simp [execute] at h
  | succ fuel ih =>
    cases hl : lex bs with
    | short => simp [execute, hl] at h
    | bad => simp [Nat.add_right_comm, execute, lex_append_bad hl xs]
    | token t rest =>
      rw [execute_token hl] at h
      rw [Nat.add_right_comm, execute_token (lex_append hl xs)]
      unfold proceed at h ⊢
      cases he : (enter st t).2 with
      | none => simp [he] at h
      | some st' =>
        simp only [he] at h ⊢
        exact ih h

/-- The bytes left over are what stands behind a nonempty object. -/
theorem execute_suffix {fuel : Nat} {st : List StackElem} {bs r : Bytes}
    (h : (execute fuel st bs).2 = .success r) : r <:+ bs ∧ r.length < bs.length := by
  induction fuel generalizing st bs with
  | zero => simp [execute] at h
  | succ fuel ih =>
    cases bs with
    | nil => simp [execute, lex] at h
    | cons b bs =>
      cases hl : lex (b :: bs) with
      | short => simp [execute, hl] at h
      | bad => simp [execute, hl] at h
      | token t rest =>
        have hrest := lex_suffix hl
        rw [execute_token hl] at h
        unfold proceed at h
        -- either this token ends the object, or a later round does
        have hr : r <:+ rest := by
          cases he : (enter st t).2 with
          | none =>
            simp only [he, ParseReturn.success.injEq] at h
            exact h ▸ List.suffix_refl _
          | some st' =>
            simp only [he] at h
            exact (ih h).1
        have hrb := hr.trans hrest
        refine ⟨hrb.trans (List.suffix_cons b bs), ?_⟩
        have := hrb.length_le
        rw [List.length_cons]
        omega

/-! ## The verdict -/

/-- `msgpack::parse` with a visitor that ignores the content. -/
def parse (bs : Bytes) : Verdict :=
  match (parseEvents bs).2 with
  | .success rest => .complete (bs.length - rest.length)
  | .more => .incomplete
  | .parseError => .error

theorem parse_complete {bs : Bytes} {n : Nat} (h : parse bs = .complete n) :
    ∃ evs r, execute bs.length [] bs = (evs, .success r) ∧ n = bs.length - r.length := by
  unfold parse parseEvents at h
  cases he : (execute bs.length [] bs).2 with
  | success r =>
    simp only [he, Verdict.complete.injEq] at h
    exact ⟨_, r, Prod.ext rfl he, h.symm⟩
  | more => simp [he] at h
  | parseError => simp [he] at h

/-- **msgpack is self-delimiting**: the parser decides from left to right. -/
def framer : Framer UInt8 where
  parse := parse
  complete_le := by
    intro bs n h
    obtain ⟨evs, r, he, rfl⟩ := parse_complete h
    omega
  complete_append := by
    intro bs n h ys
    obtain ⟨evs, r, he, rfl⟩ := parse_complete h
    have hlt := (execute_suffix (congrArg Prod.snd he)).2
    have ha := execute_append_success he ys.length ys
    simp only [parse, parseEvents, List.length_append, ha, Verdict.complete.injEq]
    omega
  error_append := by
    intro bs h ys
    have he : (execute bs.length [] bs).2 = .parseError := by
      unfold parse parseEvents at h
      split at h <;> simp_all
    have ha := execute_append_error he ys.length ys
    simp only [parse, parseEvents, List.length_append, ha]

/-! ## Building the object -/

/-- The state of `create_object_visitor`: the object written last, and for
each open container the objects it has so far (keys and values alternate). -/
structure Builder where
  slot : Object := .nil
  stack : List (List Object) := []

/-- Keys and values, paired up again. -/
def pairUp : List Object → List (Object × Object)
  | k :: v :: rest => (k, v) :: pairUp rest
  | _ => []

/-- Put the finished slot into the innermost container. -/
def Builder.push (b : Builder) : Builder :=
  match b.stack with
  | [] => b
  | done :: stack => { b with stack := (done ++ [b.slot]) :: stack }

/-- Turn the innermost container into the slot's object. -/
def Builder.close (make : List Object → Object) (b : Builder) : Builder :=
  match b.stack with
  | [] => b
  | done :: stack => ⟨make done, stack⟩

/-- One callback of `create_object_visitor`. -/
def Builder.visit (b : Builder) : Event → Builder
  | .scalar s => { b with slot := .scalar s }
  | .startArray _ => { b with stack := [] :: b.stack }
  | .startMap _ => { b with stack := [] :: b.stack }
  | .startArrayItem => b
  | .startMapKey => b
  | .startMapValue => b
  | .endArrayItem => b.push
  | .endMapKey => b.push
  | .endMapValue => b.push
  | .endArray => b.close .array
  | .endMap => b.close fun done => .map (pairUp done)

/-- `msgpack::unpack_error`, by the subclass that is thrown. -/
inductive UnpackError where
  | parseError
  | insufficientBytes
deriving DecidableEq, Repr

/-- `msgpack::unpack`; bytes behind the object are ignored. -/
def unpack (bs : Bytes) : Except UnpackError Object :=
  match parseEvents bs with
  | (evs, .success _) => .ok (evs.foldl Builder.visit {}).slot
  | (_, .more) => .error .insufficientBytes
  | (_, .parseError) => .error .parseError

/-! ## Unpacking inverts packing -/

/-- The bytes of a token sequence. -/
def packTokens (ts : List Token) : Bytes := ts.flatMap Token.pack

/-- `msgpack::pack` of an object. -/
def pack (o : Object) : Bytes := packTokens o.tokens

mutual
/-- The events of an object in document order. -/
def Object.events : Object → List Event
  | .scalar s => [.scalar s]
  | .array xs => .startArray xs.length :: arrayEvents xs
  | .map kvs => .startMap kvs.length :: mapEvents kvs

def arrayEvents : List Object → List Event
  | [] => [.endArray]
  | x :: xs => .startArrayItem :: (x.events ++ .endArrayItem :: arrayEvents xs)

def mapEvents : List (Object × Object) → List Event
  | [] => [.endMap]
  | (k, v) :: kvs =>
      .startMapKey :: (k.events ++ .endMapKey :: .startMapValue ::
        (v.events ++ .endMapValue :: mapEvents kvs))
end

/-- Events emitted before a result. -/
def emit (evs : List Event) (p : List Event × ParseReturn) : List Event × ParseReturn :=
  (evs ++ p.1, p.2)

@[simp] theorem emit_emit (as bs : List Event) (p : List Event × ParseReturn) :
    emit as (emit bs p) = emit (as ++ bs) p := by
  simp [emit]

theorem proceed_emit (fuel : Nat) (evs : List Event)
    (p : List Event × Option (List StackElem)) (bs : Bytes) :
    proceed fuel (evs ++ p.1, p.2) bs = emit evs (proceed fuel p bs) := by
  unfold proceed emit
  cases p.2 <;> simp

theorem proceed_none (fuel : Nat) (evs : List Event) (bs : Bytes) :
    proceed fuel (evs, none) bs = (evs, .success bs) := rfl

theorem proceed_some (fuel : Nat) (evs : List Event) (st : List StackElem) (bs : Bytes) :
    proceed fuel (evs, some st) bs = emit evs (execute fuel st bs) := rfl

/-- An element of an array ends: what comes next is the rest of the array. -/
theorem consume_item (n : Nat) (st : List StackElem) :
    consume (⟨.arrayItem, n + 1⟩ :: st) =
      ([.endArrayItem] ++ (nextItem n st).1, (nextItem n st).2) := by
  cases n <;> simp [consume, nextItem]

theorem consume_key (n : Nat) (st : List StackElem) :
    consume (⟨.mapKey, n⟩ :: st) =
      ([.endMapKey, .startMapValue], some (⟨.mapValue, n⟩ :: st)) := rfl

theorem consume_value (n : Nat) (st : List StackElem) :
    consume (⟨.mapValue, n + 1⟩ :: st) =
      ([.endMapValue] ++ (nextPair n st).1, (nextPair n st).2) := by
  cases n <;> simp [consume, nextPair]

theorem packTokens_cons (t : Token) (ts : List Token) :
    packTokens (t :: ts) = t.pack ++ packTokens ts := by
  simp [packTokens]

theorem packTokens_append (ts us : List Token) :
    packTokens (ts ++ us) = packTokens ts ++ packTokens us := by
  simp [packTokens]

mutual
/-- The parser on a packed object emits the object's events and then goes on
with the container around it. -/
theorem execute_object (o : Object) (h : ∀ t ∈ o.tokens, t.Sized) (fuel : Nat)
    (st : List StackElem) (ys : Bytes) :
    execute (fuel + o.tokens.length) st (packTokens o.tokens ++ ys) =
      emit o.events (proceed fuel (consume st) ys) := by
  match o with
  | .scalar s =>
    simp only [Object.tokens, packTokens_cons, List.length_singleton, List.append_assoc]
    rw [execute_token (lex_pack (h _ List.mem_cons_self) _)]
    exact proceed_emit fuel [.scalar s] (consume st) ys
  | .array xs =>
    simp only [Object.tokens, List.mem_cons, forall_eq_or_imp] at h
    simp only [Object.tokens, packTokens_cons, List.length_cons, List.append_assoc,
      ← Nat.add_assoc]
    rw [execute_token (lex_pack h.1 _)]
    rw [enter, show (Event.startArray xs.length :: (nextItem xs.length st).1) =
      [.startArray xs.length] ++ (nextItem xs.length st).1 from rfl, proceed_emit,
      proceed_items xs h.2 fuel st ys, emit_emit]
    rfl
  | .map kvs =>
    simp only [Object.tokens, List.mem_cons, forall_eq_or_imp] at h
    simp only [Object.tokens, packTokens_cons, List.length_cons, List.append_assoc,
      ← Nat.add_assoc]
    rw [execute_token (lex_pack h.1 _)]
    rw [enter, show (Event.startMap kvs.length :: (nextPair kvs.length st).1) =
      [.startMap kvs.length] ++ (nextPair kvs.length st).1 from rfl, proceed_emit,
      proceed_pairs kvs h.2 fuel st ys, emit_emit]
    rfl

theorem proceed_items (xs : List Object) (h : ∀ t ∈ listTokens xs, t.Sized) (fuel : Nat)
    (st : List StackElem) (ys : Bytes) :
    proceed (fuel + (listTokens xs).length) (nextItem xs.length st)
        (packTokens (listTokens xs) ++ ys) =
      emit (arrayEvents xs) (proceed fuel (consume st) ys) := by
  match xs with
  | [] => exact proceed_emit fuel [.endArray] (consume st) ys
  | x :: xs =>
    simp only [listTokens, List.mem_append] at h
    have hx : ∀ t ∈ x.tokens, t.Sized := fun t ht => h t (.inl ht)
    have hxs : ∀ t ∈ listTokens xs, t.Sized := fun t ht => h t (.inr ht)
    simp only [listTokens, packTokens_append, List.length_append, List.append_assoc,
      List.length_cons, nextItem, Nat.add_one_ne_zero, if_false]
    rw [proceed_some, Nat.add_comm x.tokens.length, ← Nat.add_assoc,
      execute_object x hx, consume_item, proceed_emit, proceed_items xs hxs fuel st ys]
    simp [arrayEvents]

theorem proceed_pairs (kvs : List (Object × Object)) (h : ∀ t ∈ pairTokens kvs, t.Sized)
    (fuel : Nat) (st : List StackElem) (ys : Bytes) :
    proceed (fuel + (pairTokens kvs).length) (nextPair kvs.length st)
        (packTokens (pairTokens kvs) ++ ys) =
      emit (mapEvents kvs) (proceed fuel (consume st) ys) := by
  match kvs with
  | [] => exact proceed_emit fuel [.endMap] (consume st) ys
  | (k, v) :: kvs =>
    simp only [pairTokens, List.mem_append] at h
    have hk : ∀ t ∈ k.tokens, t.Sized := fun t ht => h t (.inl ht)
    have hv : ∀ t ∈ v.tokens, t.Sized := fun t ht => h t (.inr (.inl ht))
    have hkvs : ∀ t ∈ pairTokens kvs, t.Sized := fun t ht => h t (.inr (.inr ht))
    simp only [pairTokens, packTokens_append, List.length_append, List.append_assoc,
      List.length_cons, nextPair, Nat.add_one_ne_zero, if_false]
    rw [proceed_some, Nat.add_comm k.tokens.length, ← Nat.add_assoc,
      execute_object k hk, consume_key, proceed_some, Nat.add_comm v.tokens.length,
      ← Nat.add_assoc, execute_object v hv, consume_value, proceed_emit,
      proceed_pairs kvs hkvs fuel st ys]
    simp [mapEvents]
end

/-- Keys and values in the order in which they are visited. -/
def flatPairs (kvs : List (Object × Object)) : List Object :=
  kvs.flatMap fun kv => [kv.1, kv.2]

theorem pairUp_flatPairs (kvs : List (Object × Object)) : pairUp (flatPairs kvs) = kvs := by
  induction kvs with
  | nil => rfl
  | cons kv kvs ih =>
    simp only [flatPairs, List.flatMap_cons, List.cons_append, List.nil_append, pairUp] at ih ⊢
    rw [ih]

mutual
/-- The visitor leaves the object of the events it has seen in its slot. -/
theorem build_object (o : Object) (b : Builder) :
    o.events.foldl Builder.visit b = { b with slot := o } := by
  match o with
  | .scalar s => rfl
  | .array xs =>
    simp only [Object.events, List.foldl_cons, Builder.visit]
    exact build_items xs b.slot [] b.stack
  | .map kvs =>
    simp only [Object.events, List.foldl_cons, Builder.visit]
    rw [build_pairs kvs b.slot [] b.stack, List.nil_append, pairUp_flatPairs]

theorem build_items (xs : List Object) (slot : Object) (done : List Object)
    (stack : List (List Object)) :
    (arrayEvents xs).foldl Builder.visit ⟨slot, done :: stack⟩ =
      ⟨.array (done ++ xs), stack⟩ := by
  match xs with
  | [] => simp [arrayEvents, Builder.visit, Builder.close]
  | x :: xs =>
    simp only [arrayEvents, List.foldl_cons, List.foldl_append, Builder.visit,
      build_object x, Builder.push]
    rw [build_items xs x (done ++ [x]) stack, List.append_assoc]
    rfl

theorem build_pairs (kvs : List (Object × Object)) (slot : Object) (done : List Object)
    (stack : List (List Object)) :
    (mapEvents kvs).foldl Builder.visit ⟨slot, done :: stack⟩ =
      ⟨.map (pairUp (done ++ flatPairs kvs)), stack⟩ := by
  match kvs with
  | [] => simp [mapEvents, flatPairs, Builder.visit, Builder.close]
  | (k, v) :: kvs =>
    simp only [mapEvents, List.foldl_cons, List.foldl_append, Builder.visit,
      build_object k, build_object v, Builder.push]
    rw [build_pairs kvs v (done ++ [k] ++ [v]) stack]
    simp [flatPairs]
end

theorem pack_ne_nil (t : Token) : 0 < t.pack.length := by
  cases t with
  | array n => simp only [Token.pack, packArray]; split_ifs <;> simp
  | map n => simp only [Token.pack, packMap]; split_ifs <;> simp
  | scalar s =>
    cases s with
    | nil => simp [Token.pack]
    | boolean b => cases b <;> simp [Token.pack]
    | positiveInteger u => simp only [Token.pack, packPositive]; split_ifs <;> simp
    | negativeInteger k => simp only [Token.pack, packNegative]; split_ifs <;> simp
    | float32 bits => simp [Token.pack]
    | float64 bits => simp [Token.pack]
    | str s => simp only [Token.pack, packStr]; split_ifs <;> simp
    | bin s => simp only [Token.pack, packBin]; split_ifs <;> simp
    | ext type s => simp only [Token.pack, packExt]; split_ifs <;> simp

theorem length_le_packTokens (ts : List Token) : ts.length ≤ (packTokens ts).length := by
  induction ts with
  | nil => simp
  | cons t ts ih =>
    have := pack_ne_nil t
    rw [packTokens_cons, List.length_append, List.length_cons]
    omega

/-- The parser on the bytes of one object, with anything behind it. -/
theorem parseEvents_pack {o : Object} (h : o.Packable) (ys : Bytes) :
    parseEvents (pack o ++ ys) = (o.events, .success ys) := by
  have he : execute o.tokens.length [] (pack o) = (o.events, .success []) := by
    have h0 := execute_object o h 0 [] []
    rw [Nat.zero_add, List.append_nil] at h0
    rw [pack, h0]
    simp [consume, proceed_none, emit]
  have hlen := length_le_packTokens o.tokens
  have hk : (pack o ++ ys).length =
      o.tokens.length + ((pack o ++ ys).length - o.tokens.length) := by
    rw [List.length_append, pack]
    omega
  rw [parseEvents, hk]
  exact execute_append_success he _ ys

/-- **Round trip**: unpacking the bytes of an object gives the object back. -/
theorem unpack_pack {o : Object} (h : o.Packable) (ys : Bytes) :
    unpack (pack o ++ ys) = .ok o := by
  simp only [unpack, parseEvents_pack h, build_object]

/-- The bytes of one object are one frame. -/
theorem isFrame_pack {o : Object} (h : o.Packable) : framer.IsFrame (pack o) := by
  have hp := parseEvents_pack h []
  rw [List.append_nil] at hp
  simp [Framer.IsFrame, framer, parse, hp]

end MpRpc.Msgpack
