import Mathlib
import MpRpc.Msgpack.Object

/-!
# Wire — the wire form of one token

`Token.pack` writes a header with its payload in the shortest form, as
`msgpack::packer` does; `lex` reads one header with its payload, as one
iteration of `context::execute` does. `lex` looks only at the bytes of its
token (`lex_append`), and it reads back what the packer wrote (`lex_pack`).
-/

namespace MpRpc.Msgpack

/-! ## Big-endian numbers -/

/-- The `w` low bytes of `n`, most significant first (`_msgpack_store`). -/
def storeBe : Nat → Nat → Bytes
  | 0, _ => []
  | w + 1, n => storeBe w (n / 256) ++ [UInt8.ofNat n]

/-- The number a byte string denotes (`load`). -/
def loadBe (bs : Bytes) : Nat :=
  bs.foldl (fun acc b => acc * 256 + b.toNat) 0

@[simp] theorem length_storeBe (w n : Nat) : (storeBe w n).length = w := by
  induction w generalizing n with
  | zero => rfl
  | succ w ih => simp [storeBe, ih]

theorem loadBe_storeBe {w n : Nat} (h : n < 256 ^ w) : loadBe (storeBe w n) = n := by
  induction w generalizing n with
  | zero =>
    have hn : n = 0 := by simpa using h
    simp [hn, storeBe, loadBe]
  | succ w ih =>
    have hd : n / 256 < 256 ^ w := by
      apply Nat.div_lt_of_lt_mul
      rwa [Nat.pow_succ, Nat.mul_comm] at h
    have hi := ih hd
    simp only [loadBe] at hi
    simp only [loadBe, storeBe, List.foldl_append, hi, List.foldl_cons, List.foldl_nil,
      UInt8.toNat_ofNat']
    omega

/-! ## Writing -/

/-- `pack_imp_uint64`. -/
def packPositive (d : Nat) : Bytes :=
  if d < 2 ^ 7 then [UInt8.ofNat d]
  else if d < 2 ^ 8 then 0xcc :: storeBe 1 d
  else if d < 2 ^ 16 then 0xcd :: storeBe 2 d
  else if d < 2 ^ 32 then 0xce :: storeBe 4 d
  else 0xcf :: storeBe 8 d

/-- `pack_imp_int64` of the negative number `-1 - k`, in two's complement. -/
def packNegative (k : Nat) : Bytes :=
  if k < 2 ^ 5 then [UInt8.ofNat (2 ^ 8 - 1 - k)]
  else if k < 2 ^ 7 then 0xd0 :: storeBe 1 (2 ^ 8 - 1 - k)
  else if k < 2 ^ 15 then 0xd1 :: storeBe 2 (2 ^ 16 - 1 - k)
  else if k < 2 ^ 31 then 0xd2 :: storeBe 4 (2 ^ 32 - 1 - k)
  else 0xd3 :: storeBe 8 (2 ^ 64 - 1 - k)

/-- `pack_str`. -/
def packStr (l : Nat) : Bytes :=
  if l < 32 then [UInt8.ofNat (0xa0 + l)]
  else if l < 256 then 0xd9 :: storeBe 1 l
  else if l < 65536 then 0xda :: storeBe 2 l
  else 0xdb :: storeBe 4 l

/-- `pack_bin`. -/
def packBin (l : Nat) : Bytes :=
  if l < 256 then 0xc4 :: storeBe 1 l
  else if l < 65536 then 0xc5 :: storeBe 2 l
  else 0xc6 :: storeBe 4 l

/-- `pack_ext`: five lengths have a header of their own. -/
def packExt (l : Nat) (type : UInt8) : Bytes :=
  if l = 1 then [0xd4, type]
  else if l = 2 then [0xd5, type]
  else if l = 4 then [0xd6, type]
  else if l = 8 then [0xd7, type]
  else if l = 16 then [0xd8, type]
  else if l < 256 then 0xc7 :: (storeBe 1 l ++ [type])
  else if l < 65536 then 0xc8 :: (storeBe 2 l ++ [type])
  else 0xc9 :: (storeBe 4 l ++ [type])

/-- `pack_array`. -/
def packArray (n : Nat) : Bytes :=
  if n < 16 then [UInt8.ofNat (0x90 + n)]
  else if n < 65536 then 0xdc :: storeBe 2 n
  else 0xdd :: storeBe 4 n

/-- `pack_map`. -/
def packMap (n : Nat) : Bytes :=
  if n < 16 then [UInt8.ofNat (0x80 + n)]
  else if n < 65536 then 0xde :: storeBe 2 n
  else 0xdf :: storeBe 4 n

def Token.pack : Token → Bytes
  | .scalar .nil => [0xc0]
  | .scalar (.boolean false) => [0xc2]
  | .scalar (.boolean true) => [0xc3]
  | .scalar (.positiveInteger u64) => packPositive u64.toNat
  | .scalar (.negativeInteger k) => packNegative k.val
  | .scalar (.float32 bits) => 0xca :: storeBe 4 bits.toNat
  | .scalar (.float64 bits) => 0xcb :: storeBe 8 bits.toNat
  | .scalar (.str s) => packStr s.length ++ s
  | .scalar (.bin s) => packBin s.length ++ s
  | .scalar (.ext type s) => packExt s.length type ++ s
  | .array n => packArray n
  | .map n => packMap n

/-! ## Reading -/

/-- What follows a header byte. -/
inductive Form where
  /-- nothing: the token is complete -/
  | now (t : Token)
  /-- `w` payload bytes -/
  | fixed (w : Nat) (read : Bytes → Scalar)
  /-- a `w`-byte length `l`, then `l + extra` payload bytes -/
  | sized (w extra : Nat) (read : Bytes → Scalar)
  /-- a `w`-byte element count -/
  | count (w : Nat) (read : Nat → Token)
  /-- the one unused header byte -/
  | unused

/-- An ext payload starts with its type byte. -/
def readExt : Bytes → Scalar
  | [] => .ext 0 []
  | type :: s => .ext type s

/-- A `w`-byte two's complement number; the nonnegative half is stored as a
`POSITIVE_INTEGER` (`visit_negative_integer`). -/
def readSigned (w : Nat) (bs : Bytes) : Scalar :=
  if loadBe bs < 2 ^ (8 * w - 1) then .positiveInteger (UInt64.ofNat (loadBe bs))
  else .negativeInteger (Fin.ofNat (2 ^ 63) (2 ^ (8 * w) - 1 - loadBe bs))

def readUnsigned (bs : Bytes) : Scalar := .positiveInteger (UInt64.ofNat (loadBe bs))

/-- The header table of `context::execute`. -/
def form (b : UInt8) : Form :=
  let n := b.toNat
  if n ≤ 0x7f then .now (.scalar (.positiveInteger (UInt64.ofNat n)))
  else if 0xe0 ≤ n then .now (.scalar (.negativeInteger (Fin.ofNat (2 ^ 63) (255 - n))))
  else if n ≤ 0x8f then .now (.map (n - 0x80))
  else if n ≤ 0x9f then .now (.array (n - 0x90))
  else if n ≤ 0xbf then .fixed (n - 0xa0) .str
  else match n with
    | 0xc0 => .now (.scalar .nil)
    | 0xc2 => .now (.scalar (.boolean false))
    | 0xc3 => .now (.scalar (.boolean true))
    | 0xc4 => .sized 1 0 .bin
    | 0xc5 => .sized 2 0 .bin
    | 0xc6 => .sized 4 0 .bin
    | 0xc7 => .sized 1 1 readExt
    | 0xc8 => .sized 2 1 readExt
    | 0xc9 => .sized 4 1 readExt
    | 0xca => .fixed 4 fun bs => .float32 (UInt32.ofNat (loadBe bs))
    | 0xcb => .fixed 8 fun bs => .float64 (UInt64.ofNat (loadBe bs))
    | 0xcc => .fixed 1 readUnsigned
    | 0xcd => .fixed 2 readUnsigned
    | 0xce => .fixed 4 readUnsigned
    | 0xcf => .fixed 8 readUnsigned
    | 0xd0 => .fixed 1 (readSigned 1)
    | 0xd1 => .fixed 2 (readSigned 2)
    | 0xd2 => .fixed 4 (readSigned 4)
    | 0xd3 => .fixed 8 (readSigned 8)
    | 0xd4 => .fixed 2 readExt
    | 0xd5 => .fixed 3 readExt
    | 0xd6 => .fixed 5 readExt
    | 0xd7 => .fixed 9 readExt
    | 0xd8 => .fixed 17 readExt
    | 0xd9 => .sized 1 0 .str
    | 0xda => .sized 2 0 .str
    | 0xdb => .sized 4 0 .str
    | 0xdc => .count 2 .array
    | 0xdd => .count 4 .array
    | 0xde => .count 2 .map
    | 0xdf => .count 4 .map
    | _ => .unused

/-- The result of reading one token: the token and the bytes after it, not
enough bytes, or a header that means nothing. -/
inductive Lexed where
  | token (t : Token) (rest : Bytes)
  | short
  | bad
deriving DecidableEq, Repr

/-- Wait for `w` bytes (`m_trail`) and go on with them and the rest. -/
def trail (w : Nat) (bs : Bytes) (next : Bytes → Bytes → Lexed) : Lexed :=
  if w ≤ bs.length then next (bs.take w) (bs.drop w) else .short

/-- Read the payload that a form announces. -/
def Form.lex (bs : Bytes) : Form → Lexed
  | .now t => .token t bs
  | .fixed w read => trail w bs fun body rest => .token (.scalar (read body)) rest
  | .sized w extra read => trail w bs fun len rest =>
      trail (loadBe len + extra) rest fun body rest => .token (.scalar (read body)) rest
  | .count w read => trail w bs fun len rest => .token (read (loadBe len)) rest
  | .unused => .bad

/-- Read one token. -/
def lex : Bytes → Lexed
  | [] => .short
  | b :: bs => (form b).lex bs

/-! ## One token at a time

The step lemmas of `trail` carry all three facts below through the forms. -/

theorem trail_append_token {w : Nat} {bs xs : Bytes} {next : Bytes → Bytes → Lexed}
    {t : Token} {r : Bytes} (h : trail w bs next = .token t r)
    (hn : ∀ body rest, next body rest = .token t r →
      next body (rest ++ xs) = .token t (r ++ xs)) :
    trail w (bs ++ xs) next = .token t (r ++ xs) := by
  unfold trail at h ⊢
  split at h
  · rename_i hw
    have hw' : w ≤ (bs ++ xs).length := by rw [List.length_append]; omega
    rw [if_pos hw', List.take_append_of_le_length hw, List.drop_append_of_le_length hw]
    exact hn _ _ h
  · cases h

theorem trail_suffix {w : Nat} {bs : Bytes} {next : Bytes → Bytes → Lexed}
    {t : Token} {r : Bytes} (h : trail w bs next = .token t r)
    (hn : ∀ body rest, next body rest = .token t r → r <:+ rest) : r <:+ bs := by
  unfold trail at h
  split at h
  · exact (hn _ _ h).trans (List.drop_suffix _ _)
  · cases h

theorem trail_ne_bad {w : Nat} {bs : Bytes} {next : Bytes → Bytes → Lexed}
    (hn : ∀ body rest, next body rest ≠ .bad) : trail w bs next ≠ .bad := by
  unfold trail
  split
  · exact hn _ _
  · simp

theorem trail_take {w : Nat} {bs xs : Bytes} {next : Bytes → Bytes → Lexed}
    (h : bs.length = w) : trail w (bs ++ xs) next = next bs xs := by
  subst h
  simp [trail]

/-- A token that is complete stays the same whatever follows. -/
theorem lex_append {bs : Bytes} {t : Token} {r : Bytes} (h : lex bs = .token t r)
    (xs : Bytes) : lex (bs ++ xs) = .token t (r ++ xs) := by
  cases bs with
  | nil => cases h
  | cons b bs =>
    simp only [lex, List.cons_append] at h ⊢
    cases hf : form b with
    | now t' =>
      simp only [hf, Form.lex, Lexed.token.injEq] at h ⊢
      exact ⟨h.1, by rw [h.2]⟩
    | fixed w read =>
      simp only [hf, Form.lex] at h ⊢
      exact trail_append_token h (by simp)
    | sized w extra read =>
      simp only [hf, Form.lex] at h ⊢
      exact trail_append_token h fun _ _ h' => trail_append_token h' (by simp)
    | count w read =>
      simp only [hf, Form.lex] at h ⊢
      exact trail_append_token h (by simp)
    | unused => simp [hf, Form.lex] at h

/-- An unused header byte is an error whatever follows. -/
theorem lex_append_bad {bs : Bytes} (h : lex bs = .bad) (xs : Bytes) :
    lex (bs ++ xs) = .bad := by
  cases bs with
  | nil => cases h
  | cons b bs =>
    simp only [lex, List.cons_append] at h ⊢
    cases hf : form b with
    | now t => simp [hf, Form.lex] at h
    | fixed w read =>
      simp only [hf, Form.lex] at h
      exact absurd h (trail_ne_bad (by simp))
    | sized w extra read =>
      simp only [hf, Form.lex] at h
      exact absurd h (trail_ne_bad fun _ _ => trail_ne_bad (by simp))
    | count w read =>
      simp only [hf, Form.lex] at h
      exact absurd h (trail_ne_bad (by simp))
    | unused => rfl

/-- Reading a token consumes at least its header. -/
theorem lex_suffix {b : UInt8} {bs : Bytes} {t : Token} {r : Bytes}
    (h : lex (b :: bs) = .token t r) : r <:+ bs := by
  simp only [lex] at h
  cases hf : form b with
  | now t' =>
    simp only [hf, Form.lex, Lexed.token.injEq] at h
    exact h.2 ▸ List.suffix_refl _
  | fixed w read =>
    simp only [hf, Form.lex] at h
    exact trail_suffix h fun _ _ h' => by simp_all
  | sized w extra read =>
    simp only [hf, Form.lex] at h
    exact trail_suffix h fun _ _ h' => trail_suffix h' fun _ _ h'' => by simp_all
  | count w read =>
    simp only [hf, Form.lex] at h
    exact trail_suffix h fun _ _ h' => by simp_all
  | unused => simp [hf, Form.lex] at h

/-! ## Reading back what was packed -/

theorem lex_now {b : UInt8} {t : Token} (hf : form b = .now t) (xs : Bytes) :
    lex (b :: xs) = .token t xs := by
  simp [lex, hf, Form.lex]

theorem lex_fixed {b : UInt8} {w : Nat} {read : Bytes → Scalar}
    (hf : form b = .fixed w read) {body : Bytes} (hw : body.length = w) (xs : Bytes) :
    lex (b :: (body ++ xs)) = .token (.scalar (read body)) xs := by
  simp only [lex, hf, Form.lex]
  exact trail_take hw

theorem lex_sized {b : UInt8} {w extra : Nat} {read : Bytes → Scalar}
    (hf : form b = .sized w extra read) {body : Bytes} {n : Nat} (hn : n < 256 ^ w)
    (hw : body.length = n + extra) (xs : Bytes) :
    lex (b :: (storeBe w n ++ (body ++ xs))) = .token (.scalar (read body)) xs := by
  simp only [lex, hf, Form.lex]
  rw [trail_take (length_storeBe w n), loadBe_storeBe hn]
  exact trail_take hw

theorem lex_count {b : UInt8} {w : Nat} {read : Nat → Token}
    (hf : form b = .count w read) {n : Nat} (hn : n < 256 ^ w) (xs : Bytes) :
    lex (b :: (storeBe w n ++ xs)) = .token (read n) xs := by
  simp only [lex, hf, Form.lex]
  rw [trail_take (length_storeBe w n), loadBe_storeBe hn]

theorem lex_packPositive {u64 : UInt64} (xs : Bytes) :
    lex (packPositive u64.toNat ++ xs) = .token (.scalar (.positiveInteger u64)) xs := by
  have hu := u64.toNat_lt
  -- every width reads its own big-endian number back
  have hread : ∀ w, u64.toNat < 256 ^ w →
      readUnsigned (storeBe w u64.toNat) = .positiveInteger u64 := by
    intro w hw
    rw [readUnsigned, loadBe_storeBe hw, UInt64.ofNat_toNat]
  unfold packPositive
  split
  · rename_i h
    refine lex_now ?_ xs
    have hb : (UInt8.ofNat u64.toNat).toNat = u64.toNat := by
      rw [UInt8.toNat_ofNat']; omega
    simp only [form, hb, UInt64.ofNat_toNat]
    rw [if_pos (by omega)]
  · split
    · rw [List.cons_append, lex_fixed rfl (length_storeBe 1 _), hread 1 (by omega)]
    · split
      · rw [List.cons_append, lex_fixed rfl (length_storeBe 2 _), hread 2 (by omega)]
      · split
        · rw [List.cons_append, lex_fixed rfl (length_storeBe 4 _), hread 4 (by omega)]
        · rw [List.cons_append, lex_fixed rfl (length_storeBe 8 _), hread 8 (by omega)]

theorem lex_packNegative {k : Fin (2 ^ 63)} (xs : Bytes) :
    lex (packNegative k.val ++ xs) = .token (.scalar (.negativeInteger k)) xs := by
  have hk := k.isLt
  -- two's complement at width `w` inverts as long as `k` fits the sign bit
  have hread : ∀ w, 0 < w → k.val < 2 ^ (8 * w - 1) →
      readSigned w (storeBe w (2 ^ (8 * w) - 1 - k.val)) = .negativeInteger k := by
    intro w hw hkw
    have hp : 2 ^ (8 * w) = 2 * 2 ^ (8 * w - 1) := by
      rw [← Nat.pow_succ']
      congr 1
      omega
    have h256 : 256 ^ w = 2 ^ (8 * w) := by
      rw [Nat.pow_mul]
    have hlt : 2 ^ (8 * w) - 1 - k.val < 256 ^ w := by
      rw [h256]; omega
    rw [readSigned, loadBe_storeBe hlt, if_neg (by omega)]
    congr 1
    apply Fin.ext
    rw [Fin.val_ofNat, show 2 ^ (8 * w) - 1 - (2 ^ (8 * w) - 1 - k.val) = k.val by omega]
    exact Nat.mod_eq_of_lt hk
  unfold packNegative
  split
  · rename_i h
    refine lex_now ?_ xs
    have hb : (UInt8.ofNat (2 ^ 8 - 1 - k.val)).toNat = 255 - k.val := by
      rw [UInt8.toNat_ofNat']; omega
    simp only [form, hb]
    rw [if_neg (by omega), if_pos (by omega)]
    congr 3
    apply Fin.ext
    rw [Fin.val_ofNat, show 255 - (255 - k.val) = k.val by omega]
    exact Nat.mod_eq_of_lt hk
  · split
    · rw [List.cons_append, lex_fixed rfl (length_storeBe 1 _), hread 1 (by omega) (by omega)]
    · split
      · rw [List.cons_append, lex_fixed rfl (length_storeBe 2 _), hread 2 (by omega) (by omega)]
      · split
        · rw [List.cons_append, lex_fixed rfl (length_storeBe 4 _),
            hread 4 (by omega) (by omega)]
        · rw [List.cons_append, lex_fixed rfl (length_storeBe 8 _), hread 8 (by omega) hk]

theorem lex_packStr {s : Bytes} (hs : s.length < 2 ^ 32) (xs : Bytes) :
    lex (packStr s.length ++ (s ++ xs)) = .token (.scalar (.str s)) xs := by
  unfold packStr
  split
  · rename_i h
    have hb : (UInt8.ofNat (0xa0 + s.length)).toNat = 0xa0 + s.length := by
      rw [UInt8.toNat_ofNat']; omega
    have hf : form (UInt8.ofNat (0xa0 + s.length)) = .fixed s.length .str := by
      simp only [form, hb]
      rw [if_neg (by omega), if_neg (by omega), if_neg (by omega), if_neg (by omega),
        if_pos (by omega), Nat.add_sub_cancel_left]
    exact lex_fixed hf rfl xs
  · split
    · exact lex_sized rfl (by omega) rfl xs
    · split
      · exact lex_sized rfl (by omega) rfl xs
      · exact lex_sized rfl (by omega) rfl xs

theorem lex_packBin {s : Bytes} (hs : s.length < 2 ^ 32) (xs : Bytes) :
    lex (packBin s.length ++ (s ++ xs)) = .token (.scalar (.bin s)) xs := by
  unfold packBin
  split
  · exact lex_sized rfl (by omega) rfl xs
  · split
    · exact lex_sized rfl (by omega) rfl xs
    · exact lex_sized rfl (by omega) rfl xs

theorem lex_packExt {type : UInt8} {s : Bytes} (hs : s.length < 2 ^ 32) (xs : Bytes) :
    lex (packExt s.length type ++ (s ++ xs)) = .token (.scalar (.ext type s)) xs := by
  -- the type byte is the first byte of the payload that the form announces
  have hfix : ∀ {b : UInt8} {w : Nat}, form b = .fixed (w + 1) readExt → s.length = w →
      lex ([b, type] ++ (s ++ xs)) = .token (.scalar (.ext type s)) xs := by
    intro b w hf hw
    have hl : (type :: s).length = w + 1 := by rw [List.length_cons, hw]
    exact lex_fixed hf hl xs
  have hsz : ∀ {b : UInt8} {w : Nat}, form b = .sized w 1 readExt → s.length < 256 ^ w →
      lex (b :: (storeBe w s.length ++ [type]) ++ (s ++ xs)) =
        .token (.scalar (.ext type s)) xs := by
    intro b w hf hw
    have hl : (type :: s).length = s.length + 1 := List.length_cons
    have h := lex_sized hf hw hl xs
    simpa [readExt] using h
  unfold packExt
  split
  · rename_i h; exact hfix rfl h
  · split
    · rename_i h; exact hfix rfl h
    · split
      · rename_i h; exact hfix rfl h
      · split
        · rename_i h; exact hfix rfl h
        · split
          · rename_i h; exact hfix rfl h
          · split
            · exact hsz rfl (by omega)
            · split
              · exact hsz rfl (by omega)
              · exact hsz rfl (by omega)

theorem lex_packArray {n : Nat} (hn : n < 2 ^ 32) (xs : Bytes) :
    lex (packArray n ++ xs) = .token (.array n) xs := by
  unfold packArray
  split
  · have hb : (UInt8.ofNat (0x90 + n)).toNat = 0x90 + n := by
      rw [UInt8.toNat_ofNat']; omega
    refine lex_now ?_ xs
    simp only [form, hb]
    rw [if_neg (by omega), if_neg (by omega), if_neg (by omega), if_pos (by omega),
      Nat.add_sub_cancel_left]
  · split
    · exact lex_count rfl (by omega) xs
    · exact lex_count rfl (by omega) xs

theorem lex_packMap {n : Nat} (hn : n < 2 ^ 32) (xs : Bytes) :
    lex (packMap n ++ xs) = .token (.map n) xs := by
  unfold packMap
  split
  · have hb : (UInt8.ofNat (0x80 + n)).toNat = 0x80 + n := by
      rw [UInt8.toNat_ofNat']; omega
    refine lex_now ?_ xs
    simp only [form, hb]
    rw [if_neg (by omega), if_neg (by omega), if_pos (by omega), Nat.add_sub_cancel_left]
  · split
    · exact lex_count rfl (by omega) xs
    · exact lex_count rfl (by omega) xs

/-- **Token round trip**: the lexer reads back the token the packer wrote and
leaves the bytes after it. -/
theorem lex_pack {t : Token} (ht : t.Sized) (xs : Bytes) :
    lex (t.pack ++ xs) = .token t xs := by
  cases t with
  | array n => exact lex_packArray ht xs
  | map n => exact lex_packMap ht xs
  | scalar s =>
    cases s with
    | nil => exact lex_now rfl xs
    | boolean b => cases b <;> exact lex_now rfl xs
    | positiveInteger u64 => exact lex_packPositive xs
    | negativeInteger k => exact lex_packNegative xs
    | float32 bits =>
      have hb : bits.toNat < 256 ^ 4 := bits.toNat_lt
      rw [Token.pack, List.cons_append, lex_fixed rfl (length_storeBe 4 _)]
      simp only [loadBe_storeBe hb, UInt32.ofNat_toNat]
    | float64 bits =>
      have hb : bits.toNat < 256 ^ 8 := bits.toNat_lt
      rw [Token.pack, List.cons_append, lex_fixed rfl (length_storeBe 8 _)]
      simp only [loadBe_storeBe hb, UInt64.ofNat_toNat]
    | str s =>
      rw [Token.pack, List.append_assoc]
      exact lex_packStr ht xs
    | bin s =>
      rw [Token.pack, List.append_assoc]
      exact lex_packBin ht xs
    | ext type s =>
      rw [Token.pack, List.append_assoc]
      exact lex_packExt ht xs

end MpRpc.Msgpack
