import Substrate.ChangesTrie.Build

/-! `build_changes_trie` in `changes_trie/mod.rs`: the child tries first, one
`ChildIndex` record for every child trie that got a pair, then the top trie over
the top stream and those records. A trie is modelled by its contents (an insert
overwrites the value under its key) and its root is the hasher's function of the
contents. -/
namespace Substrate.ChangesTrie

open Codec

variable {w : Nat}

/-- The contents of a `TrieDBMut` after inserting `pairs` in order. -/
def trieOf (pairs : List (Bytes × Bytes)) : BTreeMap Bytes Bytes :=
  pairs.foldl (fun t kv => t.insert kv.1 kv.2) BTreeMap.empty

abbrev MemoryDB := List (Bytes × BTreeMap Bytes Bytes)

/-- `input_pairs.map(Into::into)`, which panics where the codec does. -/
def encodePairs (pairs : List (InputPair w)) : Outcome Unit (List (Bytes × Bytes)) :=
  match pairs.mapM InputPair.into with
  | some kvs => .ok kvs
  | none => .panicked

/-- One child trie: its contents under its root, and the `ChildIndex` record it adds
to the top trie when at least one pair went into it (`not_empty`). -/
def buildChildTrie (H : Hasher) (acc : MemoryDB × List (InputPair w))
    (child : ChildIndex w × List (InputPair w)) : Outcome Unit (MemoryDB × List (InputPair w)) :=
  (encodePairs child.2).bind fun kvs =>
    let trie := trieOf kvs
    let root := H.trieRoot trie.toList
    .ok (acc.1 ++ [(root, trie)], if kvs.isEmpty then acc.2 else acc.2 ++ [.childIndex child.1 root])

def materialize (H : Hasher) (input : List (InputPair w) × List (ChildIndex w × List (InputPair w))) :
    Outcome Unit (MemoryDB × Bytes) :=
  (input.2.foldlM (buildChildTrie H) ([], [])).bind fun children =>
    (encodePairs (input.1 ++ children.2)).bind fun kvs =>
      let trie := trieOf kvs
      let root := H.trieRoot trie.toList
      .ok (children.1 ++ [(root, trie)], root)

/-- `build_changes_trie`: `Ok(None)` without a storage or a configuration, `Err(())`
when the parent hash has no anchor, a panic when `prepare_input` fails. -/
def buildChangesTrie (H : Hasher) (sched : DigestSchedule w) (backend : Backend)
    (storage : Option (Storage w)) (changes : OverlayedChanges) (parentHash : Bytes) :
    Outcome Unit (Option (MemoryDB × Bytes)) :=
  match storage, changes.changesTrieConfig with
  | some storage, some config =>
    match storage.buildAnchor parentHash with
    | .error _ => .err ()
    | .ok parent =>
      (prepareInput H sched backend storage ⟨config, 0, none⟩ changes parent).expect.bind fun input =>
        (materialize H input).bind fun r => .ok (some r)
  | _, _ => .ok none

end Substrate.ChangesTrie
