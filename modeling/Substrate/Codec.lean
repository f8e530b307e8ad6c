import Substrate.Collections
import Mathlib.Order.Fin.Basic
import Mathlib.Data.List.Lex
import Mathlib.Data.Prod.Lex

/-! The SCALE codec as the changes trie uses it: fixed-width little-endian
integers, `Compact<u32>` length prefixes, and `Vec<T>`. The codec writes a
collection's length as `Compact(len as u32)` after checking that it fits, and
panics when it does not; the encoders return `none` there. A decoder returns what
it read and the input it left. -/
namespace Substrate.Codec

/-- `w` little-endian bytes of `n`: its low `8 * w` bits. -/
def encodeLE : Nat → Nat → Bytes
  | 0, _ => []
  | w + 1, n => ⟨n % 256, Nat.mod_lt _ (by decide)⟩ :: encodeLE w (n / 256)

/-- `Input::read` of `w` bytes, as a little-endian number. -/
def decodeLE : Nat → Bytes → Except String (Nat × Bytes)
  | 0, bs => .ok (0, bs)
  | _ + 1, [] => .error "Not enough data to fill buffer"
  | w + 1, b :: bs => (decodeLE w bs).map fun r => (b.val + 256 * r.1, r.2)

theorem encodeLE_succ (w n : Nat) :
    encodeLE (w + 1) n = ⟨n % 256, Nat.mod_lt _ (by decide)⟩ :: encodeLE w (n / 256) := rfl

@[simp] theorem length_encodeLE (w n : Nat) : (encodeLE w n).length = w := by
  induction w generalizing n with
  | zero => rfl
  | succ w ih => simp [encodeLE, ih]

theorem decodeLE_encodeLE (w n : Nat) (rest : Bytes) :
    decodeLE w (encodeLE w n ++ rest) = .ok (n % 256 ^ w, rest) := by
  induction w generalizing n with
  | zero => simp [encodeLE, decodeLE, Nat.mod_one]
  | succ w ih =>
    rw [encodeLE_succ, List.cons_append, decodeLE, ih]
    simp only [Except.map]
    rw [Nat.pow_succ, Nat.mul_comm _ 256, Nat.mod_mul]

theorem decodeLE_lt {w : Nat} {input rest : Bytes} {n : Nat}
    (h : decodeLE w input = .ok (n, rest)) : n < 256 ^ w := by
  induction w generalizing input n with
  | zero => cases h; exact Nat.one_pos
  | succ w ih =>
    match input, h with
    | b :: bs, h =>
      simp only [decodeLE] at h
      cases hd : decodeLE w bs with
      | error e => rw [hd] at h; cases h
      | ok r =>
        rw [hd] at h
        cases h
        have := ih hd
        have := b.isLt
        rw [Nat.pow_succ]
        omega

theorem decodeLE_eq_ok {w : Nat} {input rest : Bytes} {n : Nat}
    (h : decodeLE w input = .ok (n, rest)) : input = encodeLE w n ++ rest := by
  induction w generalizing input n with
  | zero => cases h; rfl
  | succ w ih =>
    match input, h with
    | b :: bs, h =>
      simp only [decodeLE] at h
      cases hd : decodeLE w bs with
      | error e => rw [hd] at h; cases h
      | ok r =>
        rw [hd] at h
        cases h
        have hb := b.isLt
        rw [encodeLE_succ, ih hd, List.cons_append]
        congr 1
        · exact Fin.ext (by simp; omega)
        · congr 2; omega

/-- `Compact<u32>::encode_to`, for a value below `2 ^ 32`. -/
def compactEncode (n : Nat) : Bytes :=
  if n < 2 ^ 6 then encodeLE 1 (n * 4)
  else if n < 2 ^ 14 then encodeLE 2 (n * 4 + 1)
  else if n < 2 ^ 30 then encodeLE 4 (n * 4 + 2)
  else 3 :: encodeLE 4 n

/-- The error of each range check of `Compact<u32>::decode`. -/
def u32OutOfRange : String := "out of range decoding Compact<u32>"

/-- `Compact<u32>::decode` of codec 1.x. Modes one and two re-read the prefix byte as the
low byte of a `u16` or `u32` word. Every mode but the first rejects a value that a
shorter mode encodes (the upper bounds are those of the word read, and
`u32::max_value() >> 2` is `2 ^ 30 - 1`). -/
def compactDecode (input : Bytes) : Except String (Nat × Bytes) :=
  match input with
  | [] => .error "Not enough data to fill buffer"
  | p :: rest =>
    if p.val % 4 = 0 then .ok (p.val / 4, rest)
    else if p.val % 4 = 1 then
      (decodeLE 2 input).bind fun r =>
        if 2 ^ 6 - 1 < r.1 / 4 ∧ r.1 / 4 ≤ 2 ^ 14 - 1 then .ok (r.1 / 4, r.2)
        else .error u32OutOfRange
    else if p.val % 4 = 2 then
      (decodeLE 4 input).bind fun r =>
        if 2 ^ 14 - 1 < r.1 / 4 ∧ r.1 / 4 ≤ 2 ^ 30 - 1 then .ok (r.1 / 4, r.2)
        else .error u32OutOfRange
    else if p.val / 4 = 0 then
      (decodeLE 4 rest).bind fun r => if 2 ^ 30 - 1 < r.1 then .ok r else .error u32OutOfRange
    else .error u32OutOfRange

theorem compactDecode_compactEncode {n : Nat} (h : n < 2 ^ 32) (rest : Bytes) :
    compactDecode (compactEncode n ++ rest) = .ok (n, rest) := by
  unfold compactEncode
  split_ifs with h6 h14 h30
  · simp only [compactDecode, encodeLE, List.singleton_append]
    rw [if_pos (by omega)]
    congr 2
    omega
  · have hd := decodeLE_encodeLE 2 (n * 4 + 1) rest
    simp only [encodeLE_succ, List.cons_append, compactDecode] at hd ⊢
    rw [if_neg (by omega), if_pos (by omega), hd, Nat.mod_eq_of_lt (by omega)]
    simp only [Except.bind]
    rw [if_pos (by omega)]
    congr 2
    omega
  · have hd := decodeLE_encodeLE 4 (n * 4 + 2) rest
    simp only [encodeLE_succ, List.cons_append, compactDecode] at hd ⊢
    rw [if_neg (by omega), if_neg (by omega), if_pos (by omega), hd, Nat.mod_eq_of_lt (by omega)]
    simp only [Except.bind]
    rw [if_pos (by omega)]
    congr 2
    omega
  · simp only [List.cons_append, compactDecode]
    rw [if_neg (by decide), if_neg (by decide), if_neg (by decide), if_pos (by decide),
      decodeLE_encodeLE, Nat.mod_eq_of_lt (by omega)]
    simp only [Except.bind]
    rw [if_pos (by omega)]

theorem decodeLE_mod_four {w : Nat} {p : Byte} {bs rest : Bytes} {x : Nat}
    (h : decodeLE (w + 1) (p :: bs) = .ok (x, rest)) : x % 4 = p.val % 4 := by
  have he := decodeLE_eq_ok h
  rw [encodeLE_succ, List.cons_append, List.cons.injEq] at he
  rw [he.1]
  exact (Nat.mod_mod_of_dvd x (by decide)).symm

/-- A decode succeeds only on the canonical encoding of a `u32`: what it consumed is
`compactEncode` of the value it returned. -/
theorem compactDecode_eq_ok {input rest : Bytes} {n : Nat} (h : compactDecode input = .ok (n, rest)) :
    n < 2 ^ 32 ∧ input = compactEncode n ++ rest := by
  match input, h with
  | p :: bs, h =>
    have hp := p.isLt
    simp only [compactDecode] at h
    split_ifs at h with h₀ h₁ h₂ h₃
    · cases h
      refine ⟨by omega, ?_⟩
      rw [compactEncode, if_pos (by omega), encodeLE_succ, List.cons_append]
      exact congrArg (· :: _) (Fin.ext (by simp; omega))
    · obtain ⟨⟨x, r⟩, hd, hc⟩ := except_bind_eq_ok.mp h
      split_ifs at hc with hr
      cases hc
      have h4 := decodeLE_mod_four hd
      refine ⟨by omega, ?_⟩
      rw [decodeLE_eq_ok hd, compactEncode, if_neg (by omega), if_pos (by omega)]
      congr 2
      omega
    · obtain ⟨⟨x, r⟩, hd, hc⟩ := except_bind_eq_ok.mp h
      split_ifs at hc with hr
      cases hc
      have h4 := decodeLE_mod_four hd
      refine ⟨by omega, ?_⟩
      rw [decodeLE_eq_ok hd, compactEncode, if_neg (by omega), if_neg (by omega), if_pos (by omega)]
      congr 2
      omega
    · obtain ⟨⟨x, r⟩, hd, hc⟩ := except_bind_eq_ok.mp h
      split_ifs at hc with hr
      cases hc
      have hx := decodeLE_lt hd
      refine ⟨by simpa using hx, ?_⟩
      rw [decodeLE_eq_ok hd, compactEncode, if_neg (by omega), if_neg (by omega), if_neg (by omega)]
      exact congrArg (· :: _) (Fin.ext (by omega))

/-- `<[T]>::encode` for elements encoded by `enc`: `none` where the codec panics. -/
def encodeVec {α : Type} (enc : α → Bytes) (xs : List α) : Option Bytes :=
  if xs.length < 2 ^ 32 then some (compactEncode xs.length ++ (xs.map enc).flatten) else none

def encodeBytes (xs : Bytes) : Option Bytes := encodeVec (fun b => [b]) xs

def decodeBytes (input : Bytes) : Except String (Bytes × Bytes) :=
  match compactDecode input with
  | .ok (len, rest) =>
    if len ≤ rest.length then .ok (rest.take len, rest.drop len)
    else .error "Not enough data to fill buffer"
  | .error e => .error e

theorem flatten_map_singleton (xs : Bytes) : (xs.map fun b => [b]).flatten = xs := by
  induction xs with
  | nil => rfl
  | cons x xs ih => simp [ih]

theorem encodeBytes_eq {xs : Bytes} :
    encodeBytes xs = if xs.length < 2 ^ 32 then some (compactEncode xs.length ++ xs) else none := by
  simp [encodeBytes, encodeVec, flatten_map_singleton]

theorem isSome_encodeBytes {xs : Bytes} : (encodeBytes xs).isSome ↔ xs.length < 2 ^ 32 := by
  rw [encodeBytes_eq]
  split_ifs with h
  · exact iff_of_true rfl h
  · exact iff_of_false (by simp) h

theorem decodeBytes_of_encodeBytes {xs e : Bytes} (h : encodeBytes xs = some e) (rest : Bytes) :
    decodeBytes (e ++ rest) = .ok (xs, rest) := by
  rw [encodeBytes_eq] at h
  split_ifs at h with hlen
  cases h
  rw [decodeBytes, List.append_assoc, compactDecode_compactEncode hlen]
  simp

/-- A `Vec<u8>` decodes only from its canonical encoding. -/
theorem decodeBytes_eq_ok {input xs rest : Bytes} (h : decodeBytes input = .ok (xs, rest)) :
    ∃ e, encodeBytes xs = some e ∧ input = e ++ rest := by
  unfold decodeBytes at h
  split at h
  · next len r hc =>
    split_ifs at h with hlen
    cases h
    obtain ⟨hlt, rfl⟩ := compactDecode_eq_ok hc
    have hl : (r.take len).length = len := List.length_take_of_le hlen
    refine ⟨_, by rw [encodeBytes_eq, hl, if_pos hlt], ?_⟩
    rw [List.append_assoc, List.take_append_drop]
  · cases h

/-- A block number of a `w`-byte unsigned type (`u32` is `w = 4`, `u64` is `w = 8`). -/
abbrev BlockNumber (w : Nat) := Fin (256 ^ w)

abbrev U32 := Fin (2 ^ 32)

theorem pow_pos_256 (w : Nat) : 0 < 256 ^ w := Nat.pos_pow_of_pos w (by decide)

def encodeNumber {w : Nat} (b : BlockNumber w) : Bytes := encodeLE w b.val

def decodeNumber {w : Nat} (input : Bytes) : Except String (BlockNumber w × Bytes) :=
  (decodeLE w input).map fun r => (⟨r.1 % 256 ^ w, Nat.mod_lt _ (pow_pos_256 w)⟩, r.2)

@[simp] theorem length_encodeNumber {w : Nat} (b : BlockNumber w) : (encodeNumber b).length = w :=
  length_encodeLE w b.val

theorem decodeNumber_encodeNumber {w : Nat} (b : BlockNumber w) (rest : Bytes) :
    decodeNumber (encodeNumber b ++ rest) = .ok (b, rest) := by
  simp only [decodeNumber, encodeNumber, decodeLE_encodeLE, Except.map, Nat.mod_mod]
  congr 2
  exact Fin.ext (Nat.mod_eq_of_lt b.isLt)

theorem decodeNumber_eq_ok {w : Nat} {input rest : Bytes} {b : BlockNumber w}
    (h : decodeNumber input = .ok (b, rest)) : input = encodeNumber b ++ rest := by
  unfold decodeNumber at h
  cases hd : decodeLE w input with
  | error e => rw [hd] at h; cases h
  | ok r =>
    obtain ⟨n, r'⟩ := r
    rw [hd] at h
    cases h
    rw [decodeLE_eq_ok hd]
    show _ = encodeLE w (n % 256 ^ w) ++ r'
    rw [Nat.mod_eq_of_lt (decodeLE_lt hd)]

theorem encodeNumber_injective {w : Nat} {b b' : BlockNumber w}
    (h : encodeNumber b = encodeNumber b') : b = b' := by
  have h₁ := decodeNumber_encodeNumber b []
  rw [h, decodeNumber_encodeNumber] at h₁
  cases h₁
  rfl

def encodeU32 (x : U32) : Bytes := encodeLE 4 x.val

end Substrate.Codec
