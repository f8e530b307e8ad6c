import Substrate.Codec

/-! `changes_trie/input.rs`: the three record families of a changes trie, the
encoding of their keys (a tag byte, the block, the length-prefixed key),
`key_neutral_prefix`, and `Decode for InputKey`. A block number is a `w`-byte
unsigned integer. -/
namespace Substrate.ChangesTrie

open Codec

structure ExtrinsicIndex (w : Nat) where
  block : BlockNumber w
  key : Bytes
  deriving DecidableEq, Repr

structure DigestIndex (w : Nat) where
  block : BlockNumber w
  key : Bytes
  deriving DecidableEq, Repr

structure ChildIndex (w : Nat) where
  block : BlockNumber w
  storageKey : Bytes
  deriving DecidableEq, Repr

inductive InputPair (w : Nat) where
  | extrinsicIndex (key : ExtrinsicIndex w) (value : List U32)
  | digestIndex (key : DigestIndex w) (value : List (BlockNumber w))
  | childIndex (key : ChildIndex w) (value : Bytes)
  deriving DecidableEq, Repr

inductive InputKey (w : Nat) where
  | extrinsicIndex (key : ExtrinsicIndex w)
  | digestIndex (key : DigestIndex w)
  | childIndex (key : ChildIndex w)
  deriving DecidableEq, Repr

variable {w : Nat}

def encodeTagged (tag : Byte) (block : BlockNumber w) (key : Bytes) : Option Bytes :=
  (encodeBytes key).map fun e => tag :: (encodeNumber block ++ e)

def ExtrinsicIndex.encode (k : ExtrinsicIndex w) : Option Bytes := encodeTagged 1 k.block k.key

def DigestIndex.encode (k : DigestIndex w) : Option Bytes := encodeTagged 2 k.block k.key

def ChildIndex.encode (k : ChildIndex w) : Option Bytes := encodeTagged 3 k.block k.storageKey

/-- The three `key_neutral_prefix` functions: the tag byte and the block. -/
def keyNeutralPrefixOf (tag : Byte) (block : BlockNumber w) : Bytes := tag :: encodeNumber block

def ExtrinsicIndex.keyNeutralPrefix (block : BlockNumber w) : Bytes := keyNeutralPrefixOf 1 block

def DigestIndex.keyNeutralPrefix (block : BlockNumber w) : Bytes := keyNeutralPrefixOf 2 block

def ChildIndex.keyNeutralPrefix (block : BlockNumber w) : Bytes := keyNeutralPrefixOf 3 block

namespace InputKey

def encode : InputKey w → Option Bytes
  | extrinsicIndex k => k.encode
  | digestIndex k => k.encode
  | childIndex k => k.encode

def keyBytes : InputKey w → Bytes
  | extrinsicIndex k => k.key
  | digestIndex k => k.key
  | childIndex k => k.storageKey

def decodeFields (input : Bytes) : Except String (BlockNumber w × Bytes × Bytes) :=
  match decodeNumber input with
  | .error e => .error e
  | .ok (block, r₁) =>
    match decodeBytes r₁ with
    | .error e => .error e
    | .ok (key, r₂) => .ok (block, key, r₂)

def decode (input : Bytes) : Except String (InputKey w × Bytes) :=
  match input with
  | [] => .error "Not enough data to fill buffer"
  | t :: rest =>
    if t = 1 then (decodeFields rest).map fun r => (extrinsicIndex ⟨r.1, r.2.1⟩, r.2.2)
    else if t = 2 then (decodeFields rest).map fun r => (digestIndex ⟨r.1, r.2.1⟩, r.2.2)
    else if t = 3 then (decodeFields rest).map fun r => (childIndex ⟨r.1, r.2.1⟩, r.2.2)
    else .error "Invalid input key variant"

end InputKey

/-- `Into<(Vec<u8>, Vec<u8>)> for InputPair`: the encoded key and value, or `none`
where the codec panics. -/
def InputPair.into : InputPair w → Option (Bytes × Bytes)
  | .extrinsicIndex k v => k.encode.bind fun kb => (encodeVec encodeU32 v).map (kb, ·)
  | .digestIndex k v => k.encode.bind fun kb => (encodeVec encodeNumber v).map (kb, ·)
  | .childIndex k v => k.encode.bind fun kb => (encodeBytes v).map (kb, ·)

def InputPair.key : InputPair w → InputKey w
  | .extrinsicIndex k _ => .extrinsicIndex k
  | .digestIndex k _ => .digestIndex k
  | .childIndex k _ => .childIndex k

theorem encodeTagged_eq_some {tag : Byte} {block : BlockNumber w} {key e : Bytes}
    (h : encodeTagged tag block key = some e) :
    ∃ ek, encodeBytes key = some ek ∧ e = tag :: (encodeNumber block ++ ek) := by
  unfold encodeTagged at h
  cases hk : encodeBytes key with
  | none => rw [hk] at h; cases h
  | some ek => rw [hk] at h; cases h; exact ⟨ek, rfl, rfl⟩

theorem decodeFields_encode {block : BlockNumber w} {key ek : Bytes} (hk : encodeBytes key = some ek)
    (rest : Bytes) :
    InputKey.decodeFields (encodeNumber block ++ (ek ++ rest)) = .ok (block, key, rest) := by
  rw [InputKey.decodeFields, decodeNumber_encodeNumber]
  simp only
  rw [decodeBytes_of_encodeBytes hk]

theorem isSome_encode (k : InputKey w) : k.encode.isSome ↔ k.keyBytes.length < 2 ^ 32 := by
  cases k <;>
    simp only [InputKey.encode, InputKey.keyBytes, ExtrinsicIndex.encode, DigestIndex.encode,
      ChildIndex.encode, encodeTagged, Option.isSome_map'] <;>
    exact isSome_encodeBytes

theorem InputKey.encode_eq_some {k : InputKey w} {e : Bytes} (h : k.encode = some e) :
    ∃ ek, encodeBytes k.keyBytes = some ek ∧
      ((∃ b key, k = .extrinsicIndex ⟨b, key⟩ ∧ e = 1 :: (encodeNumber b ++ ek)) ∨
       (∃ b key, k = .digestIndex ⟨b, key⟩ ∧ e = 2 :: (encodeNumber b ++ ek)) ∨
       (∃ b key, k = .childIndex ⟨b, key⟩ ∧ e = 3 :: (encodeNumber b ++ ek))) := by
  cases k with
  | extrinsicIndex k =>
    obtain ⟨ek, hk, rfl⟩ := encodeTagged_eq_some h
    exact ⟨ek, hk, .inl ⟨k.block, k.key, rfl, rfl⟩⟩
  | digestIndex k =>
    obtain ⟨ek, hk, rfl⟩ := encodeTagged_eq_some h
    exact ⟨ek, hk, .inr (.inl ⟨k.block, k.key, rfl, rfl⟩)⟩
  | childIndex k =>
    obtain ⟨ek, hk, rfl⟩ := encodeTagged_eq_some h
    exact ⟨ek, hk, .inr (.inr ⟨k.block, k.storageKey, rfl, rfl⟩)⟩

theorem InputKey.decode_encode {k : InputKey w} {e : Bytes} (h : k.encode = some e) (rest : Bytes) :
    InputKey.decode (e ++ rest) = .ok (k, rest) := by
  obtain ⟨ek, hk, ⟨b, key, rfl, rfl⟩ | ⟨b, key, rfl, rfl⟩ | ⟨b, key, rfl, rfl⟩⟩ :=
    InputKey.encode_eq_some h <;>
  · simp only [List.cons_append, InputKey.decode, InputKey.keyBytes] at hk ⊢
    simp [decodeFields_encode hk, Except.map]

theorem InputKey.encode_injective {k k' : InputKey w} {e : Bytes} (h : k.encode = some e)
    (h' : k'.encode = some e) : k' = k := by
  have := InputKey.decode_encode h' []
  rw [InputKey.decode_encode h []] at this
  cases this
  rfl

/-- Decoding a key's encoding, followed by any bytes, gives the key back and leaves
exactly those bytes; no other key has the same encoding. -/
theorem inputKey_decode_encode (k : InputKey w) (e rest : Bytes) (h : k.encode = some e) :
    InputKey.decode (e ++ rest) = .ok (k, rest) ∧ ∀ k' : InputKey w, k'.encode = some e → k' = k :=
  ⟨InputKey.decode_encode h rest, fun _ h' => InputKey.encode_injective h h'⟩

theorem inputKey_decode_encode_child :
    (InputKey.childIndex (⟨777, [42]⟩ : ChildIndex 8)).encode = some [3, 9, 3, 0, 0, 0, 0, 0, 0, 4, 42] ∧
    InputKey.decode ([3, 9, 3, 0, 0, 0, 0, 0, 0, 4, 42] ++ [7]) =
      .ok (InputKey.childIndex (⟨777, [42]⟩ : ChildIndex 8), [7]) :=
  ⟨rfl, (inputKey_decode_encode (w := 8) (.childIndex ⟨777, [42]⟩) [3, 9, 3, 0, 0, 0, 0, 0, 0, 4, 42]
    [7] rfl).1⟩

theorem keyNeutralPrefixOf_prefix_iff (t t' : Byte) (b b' : BlockNumber w) (ek : Bytes) :
    keyNeutralPrefixOf t b <+: t' :: (encodeNumber b' ++ ek) ↔ t = t' ∧ b = b' := by
  rw [keyNeutralPrefixOf, List.cons_prefix_cons]
  refine and_congr_right fun _ => ⟨fun hp => encodeNumber_injective ?_, fun hb => hb ▸ List.prefix_append _ _⟩
  rw [List.prefix_iff_eq_take] at hp
  rwa [length_encodeNumber, List.take_left' (length_encodeNumber b')] at hp

/-- A family's `key_neutral_prefix(b)` starts the encoding of a key exactly when the key
belongs to that family and to block `b`: each prefix scan visits the records of one
family at one block. -/
theorem keyNeutralPrefix_prefix_iff (k : InputKey w) (e : Bytes) (h : k.encode = some e)
    (b : BlockNumber w) :
    (ExtrinsicIndex.keyNeutralPrefix b <+: e ↔ ∃ key, k = .extrinsicIndex ⟨b, key⟩) ∧
    (DigestIndex.keyNeutralPrefix b <+: e ↔ ∃ key, k = .digestIndex ⟨b, key⟩) ∧
    (ChildIndex.keyNeutralPrefix b <+: e ↔ ∃ key, k = .childIndex ⟨b, key⟩) := by
  obtain ⟨ek, -, ⟨b', key, rfl, rfl⟩ | ⟨b', key, rfl, rfl⟩ | ⟨b', key, rfl, rfl⟩⟩ :=
    InputKey.encode_eq_some h <;>
  simp [ExtrinsicIndex.keyNeutralPrefix, DigestIndex.keyNeutralPrefix, ChildIndex.keyNeutralPrefix,
    keyNeutralPrefixOf_prefix_iff, eq_comm]

theorem keyNeutralPrefix_prefix_iff_child :
    (InputKey.childIndex (⟨777, [42]⟩ : ChildIndex 8)).encode = some [3, 9, 3, 0, 0, 0, 0, 0, 0, 4, 42] ∧
    ((ExtrinsicIndex.keyNeutralPrefix (777 : BlockNumber 8) <+: [3, 9, 3, 0, 0, 0, 0, 0, 0, 4, 42] ↔
        ∃ key, InputKey.childIndex (⟨777, [42]⟩ : ChildIndex 8) = .extrinsicIndex ⟨777, key⟩) ∧
     (DigestIndex.keyNeutralPrefix (777 : BlockNumber 8) <+: [3, 9, 3, 0, 0, 0, 0, 0, 0, 4, 42] ↔
        ∃ key, InputKey.childIndex (⟨777, [42]⟩ : ChildIndex 8) = .digestIndex ⟨777, key⟩) ∧
     (ChildIndex.keyNeutralPrefix (777 : BlockNumber 8) <+: [3, 9, 3, 0, 0, 0, 0, 0, 0, 4, 42] ↔
        ∃ key, InputKey.childIndex (⟨777, [42]⟩ : ChildIndex 8) = .childIndex ⟨777, key⟩)) :=
  ⟨rfl, keyNeutralPrefix_prefix_iff (w := 8) (.childIndex ⟨777, [42]⟩)
    [3, 9, 3, 0, 0, 0, 0, 0, 0, 4, 42] rfl 777⟩

theorem decodeFields_eq_ok {input rest key : Bytes} {b : BlockNumber w}
    (h : InputKey.decodeFields input = .ok (b, key, rest)) :
    ∃ ek, encodeBytes key = some ek ∧ input = encodeNumber b ++ (ek ++ rest) := by
  unfold InputKey.decodeFields at h
  split at h
  · cases h
  · next b' r₁ hn =>
    split at h
    · cases h
    · next key' r₂ hk =>
      cases h
      obtain ⟨ek, hek, rfl⟩ := decodeBytes_eq_ok hk
      exact ⟨ek, hek, decodeNumber_eq_ok hn⟩

example : InputKey.decode (w := 4) [1, 0, 0, 0, 0, 5, 0, 9] = .error u32OutOfRange := rfl

/-- A raw key that decodes starts with `key_neutral_prefix(b)` of a family exactly when it
decodes to a record of that family and block `b`: the scans by prefix see the records
of one family and one block. -/
theorem decode_keyNeutralPrefix_iff {raw rest : Bytes} {k : InputKey w}
    (h : InputKey.decode raw = .ok (k, rest)) (b : BlockNumber w) :
    (ExtrinsicIndex.keyNeutralPrefix b <+: raw ↔ ∃ key, k = .extrinsicIndex ⟨b, key⟩) ∧
    (DigestIndex.keyNeutralPrefix b <+: raw ↔ ∃ key, k = .digestIndex ⟨b, key⟩) ∧
    (ChildIndex.keyNeutralPrefix b <+: raw ↔ ∃ key, k = .childIndex ⟨b, key⟩) := by
  match raw, h with
  | t :: input, h =>
    simp only [InputKey.decode] at h
    split_ifs at h with h₁ h₂ h₃ <;>
    · obtain ⟨⟨b', key, r⟩, hf, he⟩ := except_map_eq_ok.mp h
      obtain ⟨rfl, rfl⟩ := Prod.mk.inj he
      obtain ⟨ek, -, rfl⟩ := decodeFields_eq_ok hf
      subst_vars
      simp [ExtrinsicIndex.keyNeutralPrefix, DigestIndex.keyNeutralPrefix, ChildIndex.keyNeutralPrefix,
        keyNeutralPrefixOf_prefix_iff, eq_comm]

end Substrate.ChangesTrie
