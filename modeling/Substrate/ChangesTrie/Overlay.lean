import Substrate.ChangesTrie.Input

/-! The builder's inputs besides the changes-trie storage: `OverlayedChanges`, the
two layers of changes made while building a block, and the storage `Backend` as it
was before the block. -/
namespace Substrate.ChangesTrie

open Codec

/-- A key's value after the changes, and the extrinsics that changed it (`none` for
changes made outside of any extrinsic). -/
structure OverlayedValue where
  value : Option Bytes
  extrinsics : Option (BTreeSet U32)

/-- One layer of changes: the top map and one map per child storage key. -/
structure OverlayedChangeSet where
  top : HashMap Bytes OverlayedValue
  children : HashMap Bytes (HashMap Bytes OverlayedValue)

structure Configuration where
  digestInterval : Nat
  digestLevels : Nat
  deriving DecidableEq, Repr

structure OverlayedChanges where
  prospective : OverlayedChangeSet
  committed : OverlayedChangeSet
  changesTrieConfig : Option Configuration

namespace OverlayedChanges

/-- Modelled from the spec: `OverlayedChanges::storage`, whose source is not among
the files given. The prospective entry overrides the committed one; `none` when
neither layer has the key. -/
def storage (c : OverlayedChanges) (key : Bytes) : Option (Option Bytes) :=
  match c.prospective.top.get? key with
  | some v => some v.value
  | none => (c.committed.top.get? key).map (·.value)

/-- Modelled from the spec: `OverlayedChanges::child_storage`, the same lookup in
the child map of `storageKey`. -/
def childStorage (c : OverlayedChanges) (storageKey key : Bytes) : Option (Option Bytes) :=
  match (c.prospective.children.get? storageKey).bind (·.get? key) with
  | some v => some v.value
  | none => ((c.committed.children.get? storageKey).bind (·.get? key)).map (·.value)

end OverlayedChanges

structure Backend where
  existsStorage : Bytes → Except String Bool
  existsChildStorage : Bytes → Bytes → Except String Bool

/-- Two change sets hold the same entries in their top maps and in each child map,
whatever order each map enumerates them in. -/
def OverlayedChangeSet.SameEntries (c₁ c₂ : OverlayedChangeSet) : Prop :=
  c₁.top.Rel Eq c₂.top ∧ c₁.children.Rel (HashMap.Rel Eq) c₂.children

def OverlayedChanges.SameEntries (o₁ o₂ : OverlayedChanges) : Prop :=
  o₁.prospective.SameEntries o₂.prospective ∧ o₁.committed.SameEntries o₂.committed ∧
    o₁.changesTrieConfig = o₂.changesTrieConfig

end Substrate.ChangesTrie
