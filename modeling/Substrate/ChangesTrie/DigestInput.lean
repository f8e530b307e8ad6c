import Substrate.ChangesTrie.ExtrinsicsInput

/-! What the fold of `prepare_digest_input` keeps: every record of a digest map is
keyed by the block being built and by the key it is stored under, and the child maps
hold exactly the children whose `ChildIndex` records the scans of the covered blocks
found. -/
namespace Substrate.ChangesTrie

open Codec

variable {w : Nat}

section Step

variable {H : Hasher} {storage : Storage w} {parent : AnchorBlockId w} {block b : BlockNumber w}

theorem digestStep_eq_ok {acc acc' : DigestMap w × BTreeMap (ChildIndex w) (DigestMap w)} :
    digestStep H storage parent block acc b = .ok acc' ↔
      ∃ root roots, storage.root parent b = .ok (some root) ∧
        scanChildRoots H (storage.trie root) b = .ok roots ∧
        (scanKeys (storage.trie root) block b acc.1, foldChildTries storage block b acc.2 roots) =
          acc' := by
  unfold digestStep
  cases storage.root parent b with
  | error e => simp
  | ok r =>
    cases r with
    | none => simp
    | some root => simp [Outcome.bind_eq_ok]

theorem mem_keys_foldl_insert {V : Type} (g : BTreeMap (ChildIndex w) V → Bytes × Bytes → V)
    (l : List (Bytes × Bytes)) (cm : BTreeMap (ChildIndex w) V) (c : ChildIndex w) :
    c ∈ (l.foldl (fun cm e => cm.insert ⟨block, e.1⟩ (g cm e)) cm).keys ↔
      c ∈ cm.keys ∨ (c.block = block ∧ c.storageKey ∈ l.map Prod.fst) := by
  induction l generalizing cm with
  | nil => simp
  | cons e rest ih =>
    obtain ⟨cb, csk⟩ := c
    rw [List.foldl_cons, ih, BTreeMap.mem_keys_insert]
    simp only [ChildIndex.mk.injEq, List.map_cons, List.mem_cons, and_or_left, or_assoc,
      or_left_comm]

theorem mem_keys_foldChildTries {cm : BTreeMap (ChildIndex w) (DigestMap w)}
    {roots : BTreeMap Bytes Bytes} {c : ChildIndex w} :
    c ∈ (foldChildTries storage block b cm roots).keys ↔
      c ∈ cm.keys ∨ (c.block = block ∧ c.storageKey ∈ roots.keys) :=
  mem_keys_foldl_insert _ roots.toList cm c

end Step

/-- A child storage key that the `ChildIndex` scan finds in the trie of one of the
blocks the digest covers. -/
def FoundByDigest (H : Hasher) (storage : Storage w) (parent : AnchorBlockId w)
    (blocks : List (BlockNumber w)) (sk : Bytes) : Prop :=
  ∃ b ∈ blocks, ∃ root roots, storage.root parent b = .ok (some root) ∧
    scanChildRoots H (storage.trie root) b = .ok roots ∧ sk ∈ roots.keys

section Children

variable {H : Hasher} {storage : Storage w} {parent : AnchorBlockId w} {block b : BlockNumber w}

theorem foundByDigest_cons {blocks : List (BlockNumber w)} {root : Bytes}
    {roots : BTreeMap Bytes Bytes} (hr : storage.root parent b = .ok (some root))
    (hs : scanChildRoots H (storage.trie root) b = .ok roots) (sk : Bytes) :
    FoundByDigest H storage parent (b :: blocks) sk ↔
      sk ∈ roots.keys ∨ FoundByDigest H storage parent blocks sk := by
  constructor
  · rintro ⟨b', hb', root', roots', hr', hs', hk⟩
    rcases List.mem_cons.mp hb' with rfl | hb'
    · rw [hr] at hr'
      cases hr'
      rw [hs] at hs'
      cases hs'
      exact .inl hk
    · exact .inr ⟨b', hb', root', roots', hr', hs', hk⟩
  · rintro (hk | ⟨b', hb', rest⟩)
    · exact ⟨b, List.mem_cons_self _ _, root, roots, hr, hs, hk⟩
    · exact ⟨b', List.mem_cons_of_mem _ hb', rest⟩

/-- The run lemma for the child maps: a child is in the map after the fold exactly when
it was before, or a scan of a covered block found it. -/
theorem foldlM_digestStep_children {blocks : List (BlockNumber w)}
    {acc acc' : DigestMap w × BTreeMap (ChildIndex w) (DigestMap w)}
    (h : blocks.foldlM (digestStep H storage parent block) acc = .ok acc') (c : ChildIndex w) :
    c ∈ acc'.2.keys ↔
      c ∈ acc.2.keys ∨ (c.block = block ∧ FoundByDigest H storage parent blocks c.storageKey) := by
  induction blocks generalizing acc with
  | nil =>
    cases h
    simp [FoundByDigest]
  | cons b rest ih =>
    rw [List.foldlM_cons, Outcome.bind_eq_ok] at h
    obtain ⟨acc₁, h₁, h₂⟩ := h
    obtain ⟨root, roots, hr, hs, rfl⟩ := digestStep_eq_ok.mp h₁
    rw [ih h₂, mem_keys_foldChildTries, foundByDigest_cons hr hs, and_or_left, or_assoc]

end Children

/-- Every record of a digest map is keyed by the block being built and by the key it
is stored under. -/
def DigestMap.WellKeyed (block : BlockNumber w) (m : DigestMap w) : Prop :=
  ∀ k v, m.get? k = some v → v.1 = ⟨block, k⟩

def ChildMapsWellKeyed (block : BlockNumber w) (cm : BTreeMap (ChildIndex w) (DigestMap w)) :
    Prop :=
  ∀ c v, cm.get? c = some v → v.WellKeyed block

section WellKeyed

variable {storage : Storage w} {block b : BlockNumber w}

theorem DigestMap.wellKeyed_empty : DigestMap.WellKeyed block (BTreeMap.empty : DigestMap w) :=
  fun _ _ h => by simp at h

theorem DigestMap.WellKeyed.insertToMap {m : DigestMap w} (hm : m.WellKeyed block) (key : Bytes) :
    (insertToMap block b m key).WellKeyed block := by
  intro k v hv
  unfold ChangesTrie.insertToMap at hv
  split at hv
  · rw [BTreeMap.get?_insert] at hv
    split_ifs at hv with hk
    · cases hv
      rw [hk]
    · exact hm k v hv
  · next index blocks hsome =>
    split_ifs at hv
    · exact hm k v hv
    · rw [BTreeMap.get?_insert] at hv
      split_ifs at hv with hk
      · cases hv
        subst hk
        exact hm _ (index, blocks) hsome
      · exact hm k v hv

theorem DigestMap.WellKeyed.scanFamily {m : DigestMap w} (hm : m.WellKeyed block)
    (kvs : List (Bytes × Bytes)) (pfx : Bytes) (select : InputKey w → Option Bytes) :
    (scanFamily kvs pfx select block b m).WellKeyed block := by
  refine List.foldlRecOn _ _ _ hm fun m hm kv _ => ?_
  dsimp only
  split
  · next k _ _ =>
    cases select k with
    | none => exact hm
    | some key => exact hm.insertToMap key
  · exact hm

theorem DigestMap.WellKeyed.scanKeys {m : DigestMap w} (hm : m.WellKeyed block)
    (kvs : List (Bytes × Bytes)) : (scanKeys kvs block b m).WellKeyed block :=
  (hm.scanFamily _ _ _).scanFamily _ _ _

theorem ChildMapsWellKeyed.foldChildTries {cm : BTreeMap (ChildIndex w) (DigestMap w)}
    (hcm : ChildMapsWellKeyed block cm) (roots : BTreeMap Bytes Bytes) :
    ChildMapsWellKeyed block (foldChildTries storage block b cm roots) := by
  refine List.foldlRecOn _ _ _ hcm fun cm hcm e _ c v hv => ?_
  simp only [BTreeMap.get?_insert] at hv
  split_ifs at hv
  · cases hv
    refine DigestMap.WellKeyed.scanKeys ?_ _
    cases h : cm.get? ⟨block, e.1⟩ with
    | none => exact DigestMap.wellKeyed_empty
    | some v => exact hcm _ _ h
  · exact hcm c v hv

/-- The run lemma: the fold over the covered blocks keeps every map well keyed. -/
theorem foldlM_digestStep_wellKeyed {H : Hasher} {parent : AnchorBlockId w}
    {blocks : List (BlockNumber w)} {acc acc' : DigestMap w × BTreeMap (ChildIndex w) (DigestMap w)}
    (h : blocks.foldlM (digestStep H storage parent block) acc = .ok acc')
    (hacc : acc.1.WellKeyed block ∧ ChildMapsWellKeyed block acc.2) :
    acc'.1.WellKeyed block ∧ ChildMapsWellKeyed block acc'.2 := by
  refine Outcome.foldlM_invariant
    (P := fun acc : DigestMap w × _ => acc.1.WellKeyed block ∧ ChildMapsWellKeyed block acc.2)
    (fun acc b acc' hacc h => ?_) hacc h
  obtain ⟨root, roots, -, -, rfl⟩ := digestStep_eq_ok.mp h
  exact ⟨hacc.1.scanKeys _, hacc.2.foldChildTries roots⟩

theorem DigestMap.WellKeyed.keyedBy {m : DigestMap w} (hm : m.WellKeyed block) :
    KeyedBy (fun k => .digestIndex ⟨block, k⟩) (digestPairs m) :=
  keyedBy_of_get? fun k v hv => by
    show InputKey.digestIndex v.1 = _
    rw [hm k v hv]

end WellKeyed

section Prepare

variable {H : Hasher} {sched : DigestSchedule w} {parent : AnchorBlockId w}
  {config : ConfigurationRange w} {block : BlockNumber w} {storage : Storage w}

def digestBlocks (sched : DigestSchedule w) (config : ConfigurationRange w) (block : BlockNumber w) :
    List (BlockNumber w) :=
  sched.digestBuildIterator config (blockForDigest sched config block)

theorem prepareDigestInput_eq_ok {r : List (InputPair w) × BTreeMap (ChildIndex w) (List (InputPair w))} :
    prepareDigestInput H sched parent config block storage = .ok r ↔
      ∃ acc, (digestBlocks sched config block).foldlM (digestStep H storage parent block)
          (BTreeMap.empty, BTreeMap.empty) = .ok acc ∧
        (digestPairs acc.1, acc.2.map digestPairs) = r := by
  rw [prepareDigestInput, Outcome.bind_eq, Outcome.bind_eq_ok]
  simp only [digestBlocks, Outcome.ok.injEq]

/-- The top stream and every child stream of `prepare_digest_input` hold one
`DigestIndex` record of the block per key. -/
theorem prepareDigestInput_keyedBy {top : List (InputPair w)}
    {children : BTreeMap (ChildIndex w) (List (InputPair w))}
    (h : prepareDigestInput H sched parent config block storage = .ok (top, children)) :
    KeyedBy (fun k => .digestIndex ⟨block, k⟩) top ∧
      ∀ c s, children.get? c = some s → KeyedBy (fun k => .digestIndex ⟨block, k⟩) s := by
  obtain ⟨acc, hacc, he⟩ := prepareDigestInput_eq_ok.mp h
  cases he
  obtain ⟨h₁, h₂⟩ := foldlM_digestStep_wellKeyed hacc
    ⟨DigestMap.wellKeyed_empty, fun _ _ hv => by simp at hv⟩
  refine ⟨h₁.keyedBy, fun c s hs => ?_⟩
  rw [BTreeMap.get?_map, Option.map_eq_some'] at hs
  obtain ⟨m, hm, rfl⟩ := hs
  exact (h₂ c m hm).keyedBy

/-- The children of `prepare_digest_input` are those of the block that the scans of
the covered blocks found. -/
theorem prepareDigestInput_children_keys {top : List (InputPair w)}
    {children : BTreeMap (ChildIndex w) (List (InputPair w))}
    (h : prepareDigestInput H sched parent config block storage = .ok (top, children))
    (c : ChildIndex w) :
    c ∈ children.keys ↔
      c.block = block ∧ FoundByDigest H storage parent (digestBlocks sched config block) c.storageKey := by
  obtain ⟨acc, hacc, he⟩ := prepareDigestInput_eq_ok.mp h
  cases he
  rw [BTreeMap.keys_map, foldlM_digestStep_children hacc]
  simp [BTreeMap.keys, BTreeMap.empty]

end Prepare

end Substrate.ChangesTrie
