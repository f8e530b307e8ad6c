import Substrate.ChangesTrie.Overlay

/-! `changes_trie/build.rs`: the input pairs of the changes trie of one block. The
extrinsics part folds the overlay into a map by key; the digest part scans the
tries of earlier blocks. `digest_build_iterator` and
`next_max_level_digest_range` are not among the files given: they are the
parameters `DigestSchedule`. -/
namespace Substrate.ChangesTrie

open Codec

variable {w : Nat}

instance : LinearOrder (ChildIndex w) :=
  LinearOrder.lift' (fun c => toLex (c.block, c.storageKey)) fun a b h => by
    obtain ⟨b₁, k₁⟩ := a
    obtain ⟨b₂, k₂⟩ := b
    obtain ⟨rfl, rfl⟩ := Prod.mk.inj (toLex.injective h)
    rfl

structure AnchorBlockId (w : Nat) where
  hash : Bytes
  number : BlockNumber w

/-- Changes-trie `Storage`: anchors, roots by block, and the key-value pairs of the
trie under a root as `TrieBackendEssence` walks them. -/
structure Storage (w : Nat) where
  buildAnchor : Bytes → Except String (AnchorBlockId w)
  root : AnchorBlockId w → BlockNumber w → Except String (Option Bytes)
  trie : Bytes → List (Bytes × Bytes)

structure ConfigurationRange (w : Nat) where
  config : Configuration
  zero : BlockNumber w
  «end» : Option (BlockNumber w)

/-- `digest_build_iterator` and `Configuration::next_max_level_digest_range`. -/
structure DigestSchedule (w : Nat) where
  digestBuildIterator : ConfigurationRange w → BlockNumber w → List (BlockNumber w)
  nextMaxLevelDigestRange :
    Configuration → BlockNumber w → BlockNumber w → Option (BlockNumber w × BlockNumber w)

/-- The hasher `H` of the Merkle trie: a trie root is a function of the trie's
key-value pairs, and `H::Out` has a fixed length. -/
structure Hasher where
  outLen : Nat
  outLen_lt : outLen < 2 ^ 32
  trieRoot : List (Bytes × Bytes) → Bytes
  length_trieRoot : ∀ kvs, (trieRoot kvs).length = outLen

abbrev ExtrinsicsMap (w : Nat) := BTreeMap Bytes (ExtrinsicIndex w × List U32)

/-- Entries whose extrinsics are recorded, with the extrinsic set iterated: the
`filter` on `extrinsics.is_some()` with the `expect` after it. -/
def recordedExtrinsics (m : HashMap Bytes OverlayedValue) : List (Bytes × List U32) :=
  m.toList.filterMap fun e => e.2.extrinsics.map fun s => (e.1, s.keys)

/-- The temporary-value filter of the `Vacant` branch: a key is kept when its final
overlay value is set, else when the backend has it. -/
def keepKey (backend : Backend) (changes : OverlayedChanges) :
    Option Bytes → Bytes → Except String Bool
  | some sk, k =>
    if ((changes.childStorage sk k).map Option.isSome).getD false then .ok true
    else backend.existsChildStorage sk k
  | none, k =>
    if ((changes.storage k).map Option.isSome).getD false then .ok true
    else backend.existsStorage k

/-- One step of the `try_fold`: a `Vacant` key is checked and inserted, an
`Occupied` one has its extrinsics extended and sorted. -/
def insertExtrinsics (keep : Bytes → Except String Bool) (block : BlockNumber w)
    (map : ExtrinsicsMap w) (entry : Bytes × List U32) : Except String (ExtrinsicsMap w) :=
  match map.get? entry.1 with
  | none => (keep entry.1).map fun kept =>
      if kept then map.insert entry.1 (⟨block, entry.1⟩, entry.2) else map
  | some (index, extrinsics) =>
    .ok (map.insert entry.1 (index, (extrinsics ++ entry.2).mergeSort))

def extrinsicsEntries (changes : OverlayedChanges) : Option Bytes → List (Bytes × List U32)
  | some sk => ((changes.committed.children.get? sk).map recordedExtrinsics).getD [] ++
      ((changes.prospective.children.get? sk).map recordedExtrinsics).getD []
  | none => recordedExtrinsics changes.committed.top ++ recordedExtrinsics changes.prospective.top

/-- `prepare_extrinsics_input_inner`: the `ExtrinsicIndex` records of the top trie
(`storageKey = none`) or of one child trie. -/
def prepareExtrinsicsInputInner (backend : Backend) (block : BlockNumber w)
    (changes : OverlayedChanges) (storageKey : Option Bytes) :
    Except String (List (InputPair w)) :=
  ((extrinsicsEntries changes storageKey).foldlM
    (insertExtrinsics (keepKey backend changes storageKey) block) BTreeMap.empty).map
    fun map => map.toList.map fun e => .extrinsicIndex e.2.1 e.2.2

def prepareExtrinsicsInput (backend : Backend) (block : BlockNumber w)
    (changes : OverlayedChanges) :
    Except String (List (InputPair w) × BTreeMap (ChildIndex w) (List (InputPair w))) := do
  let childrenKeys := BTreeSet.ofList
    (changes.prospective.children.keys ++ changes.committed.children.keys)
  let childrenResult ← childrenKeys.keys.foldlM (fun acc sk =>
      (prepareExtrinsicsInputInner backend block changes (some sk)).map fun iter =>
        acc.insert ⟨block, sk⟩ iter) BTreeMap.empty
  let top ← prepareExtrinsicsInputInner backend block changes none
  pure (top, childrenResult)

abbrev DigestMap (w : Nat) := BTreeMap Bytes (DigestIndex w × List (BlockNumber w))

/-- `insert_to_map`: record that `key` changed in `digestBuildBlock`, unless that block
is already the last one recorded. -/
def insertToMap (block digestBuildBlock : BlockNumber w) (map : DigestMap w) (key : Bytes) :
    DigestMap w :=
  match map.get? key with
  | none => map.insert key (⟨block, key⟩, [digestBuildBlock])
  | some (index, blocks) =>
    if blocks.getLast? = some digestBuildBlock then map
    else map.insert key (index, blocks ++ [digestBuildBlock])

/-- `for_keys_with_prefix` and `for_key_values_with_prefix`. -/
def withPrefix (kvs : List (Bytes × Bytes)) (pfx : Bytes) : List (Bytes × Bytes) :=
  kvs.filter fun kv => pfx.isPrefixOf kv.1

def InputKey.extrinsicKey? : InputKey w → Option Bytes
  | .extrinsicIndex k => some k.key
  | _ => none

def InputKey.digestKey? : InputKey w → Option Bytes
  | .digestIndex k => some k.key
  | _ => none

def scanFamily (kvs : List (Bytes × Bytes)) (pfx : Bytes) (select : InputKey w → Option Bytes)
    (block digestBuildBlock : BlockNumber w) (map : DigestMap w) : DigestMap w :=
  (withPrefix kvs pfx).foldl (fun m kv =>
    match InputKey.decode (w := w) kv.1 with
    | .ok (k, _) => ((select k).map (insertToMap block digestBuildBlock m)).getD m
    | .error _ => m) map

def scanKeys (kvs : List (Bytes × Bytes)) (block digestBuildBlock : BlockNumber w)
    (map : DigestMap w) : DigestMap w :=
  scanFamily kvs (DigestIndex.keyNeutralPrefix digestBuildBlock) InputKey.digestKey? block
    digestBuildBlock
    (scanFamily kvs (ExtrinsicIndex.keyNeutralPrefix digestBuildBlock) InputKey.extrinsicKey? block
      digestBuildBlock map)

/-- `copy_from_slice` into `H::Out::default()`: panics unless the lengths agree. -/
def copyFromSlice (H : Hasher) (value : Bytes) : Outcome String Bytes :=
  if value.length = H.outLen then .ok value else .panicked

/-- One entry of the `ChildIndex` scan: a `ChildIndex` key whose value decodes as a
`Vec<u8>` records the child trie root, which is copied into `H::Out`. -/
def childRootStep (H : Hasher) (roots : BTreeMap Bytes Bytes) (kv : Bytes × Bytes) :
    Outcome String (BTreeMap Bytes Bytes) :=
  match InputKey.decode (w := w) kv.1 with
  | .ok (.childIndex k, _) =>
    match decodeBytes kv.2 with
    | .ok (value, _) => (copyFromSlice H value).bind fun root => .ok (roots.insert k.storageKey root)
    | .error _ => .ok roots
  | _ => .ok roots

def scanChildRoots (H : Hasher) (kvs : List (Bytes × Bytes)) (digestBuildBlock : BlockNumber w) :
    Outcome String (BTreeMap Bytes Bytes) :=
  (withPrefix kvs (ChildIndex.keyNeutralPrefix digestBuildBlock)).foldlM (childRootStep (w := w) H)
    BTreeMap.empty

def foldChildTries (storage : Storage w) (block digestBuildBlock : BlockNumber w)
    (childMap : BTreeMap (ChildIndex w) (DigestMap w)) (childrenRoots : BTreeMap Bytes Bytes) :
    BTreeMap (ChildIndex w) (DigestMap w) :=
  childrenRoots.toList.foldl (fun cm e =>
    let childIndex : ChildIndex w := ⟨block, e.1⟩
    cm.insert childIndex
      (scanKeys (storage.trie e.2) block digestBuildBlock ((cm.get? childIndex).getD BTreeMap.empty)))
    childMap

def digestStep (H : Hasher) (storage : Storage w) (parent : AnchorBlockId w) (block : BlockNumber w)
    (acc : DigestMap w × BTreeMap (ChildIndex w) (DigestMap w)) (digestBuildBlock : BlockNumber w) :
    Outcome String (DigestMap w × BTreeMap (ChildIndex w) (DigestMap w)) := do
  let trieRoot ← Outcome.ofExcept (storage.root parent digestBuildBlock)
  match trieRoot with
  | none => .err ("No changes trie root for block " ++ toString digestBuildBlock.val)
  | some trieRoot =>
    let kvs := storage.trie trieRoot
    let childrenRoots ← scanChildRoots H kvs digestBuildBlock
    pure (scanKeys kvs block digestBuildBlock acc.1,
      foldChildTries storage block digestBuildBlock acc.2 childrenRoots)

/-- The block whose digest is built: on the configuration's end block, the end of
the next max-level digest range. -/
def blockForDigest (sched : DigestSchedule w) (config : ConfigurationRange w)
    (block : BlockNumber w) : BlockNumber w :=
  if config.end = some block then
    ((sched.nextMaxLevelDigestRange config.config config.zero block).map Prod.snd).getD block
  else block

def digestPairs (map : DigestMap w) : List (InputPair w) :=
  map.toList.map fun e => .digestIndex e.2.1 e.2.2

def prepareDigestInput (H : Hasher) (sched : DigestSchedule w) (parent : AnchorBlockId w)
    (config : ConfigurationRange w) (block : BlockNumber w) (storage : Storage w) :
    Outcome String (List (InputPair w) × BTreeMap (ChildIndex w) (List (InputPair w))) :=
  ((sched.digestBuildIterator config (blockForDigest sched config block)).foldlM
    (digestStep H storage parent block) (BTreeMap.empty, BTreeMap.empty)).bind fun r =>
      .ok (digestPairs r.1, r.2.map digestPairs)

/-- The loops of `prepare_input` that attach each child's digest records to its
extrinsic records, then list the children found only by the digest. -/
def mergeChildren (childrenExtrinsics childrenDigest : BTreeMap (ChildIndex w) (List (InputPair w))) :
    List (ChildIndex w × List (InputPair w)) :=
  let r := childrenExtrinsics.toList.foldl (fun acc e =>
    (acc.1 ++ [(e.1, e.2 ++ (acc.2.get? e.1).getD [])], acc.2.erase e.1)) ([], childrenDigest)
  r.1 ++ r.2.toList

def prepareInput (H : Hasher) (sched : DigestSchedule w) (backend : Backend) (storage : Storage w)
    (config : ConfigurationRange w) (changes : OverlayedChanges) (parent : AnchorBlockId w) :
    Outcome String (List (InputPair w) × List (ChildIndex w × List (InputPair w))) := do
  let number := parent.number + 1
  let (extrinsicsInput, childrenExtrinsicsInput) ←
    Outcome.ofExcept (prepareExtrinsicsInput backend number changes)
  let (digestInput, childrenDigestInput) ← prepareDigestInput H sched parent config number storage
  pure (extrinsicsInput ++ digestInput, mergeChildren childrenExtrinsicsInput childrenDigestInput)

end Substrate.ChangesTrie
