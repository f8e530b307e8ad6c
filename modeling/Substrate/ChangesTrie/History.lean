import Substrate.ChangesTrie.DigestRecords
import Substrate.ChangesTrie.Tries

/-! Digests over the tries that earlier blocks built. At every block `build_changes_trie`
writes the child tries and the top trie into the `MemoryDB`, which the changes-trie
storage then serves under their roots; `prepare_digest_input` of a later block reads them
back through its key-neutral prefix scans. Over a storage that holds what the builds of
the covered blocks wrote, the digest never panics, and it lists for every key exactly
the covered blocks whose streams recorded a change of the key, in the top trie and in
every child trie. -/
namespace Substrate.ChangesTrie

open Codec

variable {w : Nat}

/-- `k` changed in block `b` by the stream `s`: `s` holds an `ExtrinsicIndex` or a
`DigestIndex` record of block `b` for `k`. -/
def recordsChange (s : List (InputPair w)) (b : BlockNumber w) (k : Bytes) : Bool :=
  s.any fun p => p.key == .extrinsicIndex ⟨b, k⟩ || p.key == .digestIndex ⟨b, k⟩

def childStream (children : List (ChildIndex w × List (InputPair w))) (b : BlockNumber w) (sk : Bytes) :
    List (InputPair w) :=
  (lookupKey ⟨b, sk⟩ children).getD []

/-- A `DigestIndex` stream of `block` over the covered `blocks`, for what `changed` says
changed in each: one record for each key that changed in some covered block, in
strictly ascending key order, whose value is the list of the covered blocks in which it
changed. -/
def DigestOf (block : BlockNumber w) (blocks : List (BlockNumber w))
    (changed : BlockNumber w → Bytes → Bool) (s : List (InputPair w)) : Prop :=
  ∃ ks : List Bytes, ks.Pairwise (· < ·) ∧ (∀ k, k ∈ ks ↔ ∃ b ∈ blocks, changed b k) ∧
    s = ks.map fun k => .digestIndex ⟨block, k⟩ (blocks.filter fun b => changed b k)

@[simp] theorem recordsChange_nil (b : BlockNumber w) (k : Bytes) : recordsChange [] b k = false := rfl

theorem recordsChange_append (s₁ s₂ : List (InputPair w)) (b : BlockNumber w) (k : Bytes) :
    recordsChange (s₁ ++ s₂) b k = (recordsChange s₁ b k || recordsChange s₂ b k) :=
  List.any_append

theorem changedKey?_of_into {p : InputPair w} {kv : Bytes × Bytes} (h : p.into = some kv)
    (b : BlockNumber w) (k : Bytes) :
    changedKey? b kv.1 = some k ↔ p.key = .extrinsicIndex ⟨b, k⟩ ∨ p.key = .digestIndex ⟨b, k⟩ := by
  have hd := InputKey.decode_encode (InputPair.encode_key_of_into h) []
  rw [List.append_nil] at hd
  simp [changedKey?_eq_some, hd, ← or_and_right]

/-- The scans of a trie built from encoded records with distinct keys find a change of `k`
in block `b` exactly when one of the records is an `ExtrinsicIndex` or `DigestIndex`
record of `b` for `k`. -/
theorem changedIn_trieOf {P : List (InputPair w)} {kvs : List (Bytes × Bytes)}
    (h : List.Forall₂ (fun p kv => p.into = some kv) P kvs) (hk : (P.map InputPair.key).Nodup)
    (b : BlockNumber w) (k : Bytes) :
    changedIn (trieOf kvs).toList b k = recordsChange P b k := by
  rw [Bool.eq_iff_iff]
  simp only [changedIn, recordsChange, List.any_eq_true, beq_iff_eq, Bool.or_eq_true,
    mem_toList_trieOf (nodup_fst_of_forall₂_into h hk)]
  constructor
  · rintro ⟨kv, hkv, hc⟩
    obtain ⟨p, hz, hp⟩ := (exists_mem_zip_of_forall₂ h).2 kv hkv
    exact ⟨p, (List.of_mem_zip hz).1, (changedKey?_of_into hp b k).mp hc⟩
  · rintro ⟨p, hp, hc⟩
    obtain ⟨kv, hz, hkv⟩ := (exists_mem_zip_of_forall₂ h).1 p hp
    exact ⟨kv, (List.of_mem_zip hz).2, (changedKey?_of_into hkv b k).mpr hc⟩

theorem childRootsWellFormed_trieOf {H : Hasher} {P : List (InputPair w)} {kvs : List (Bytes × Bytes)}
    (h : List.Forall₂ (fun p kv => p.into = some kv) P kvs) (hk : (P.map InputPair.key).Nodup)
    (hlen : ∀ c r, InputPair.childIndex c r ∈ P → r.length = H.outLen) (b : BlockNumber w) :
    ChildRootsWellFormed H (trieOf kvs).toList b := by
  intro kv hkv sk rest value rest' hd hv
  rw [mem_toList_trieOf (nodup_fst_of_forall₂_into h hk)] at hkv
  obtain ⟨p, hz, hp⟩ := (exists_mem_zip_of_forall₂ h).2 kv hkv
  have hd' := InputKey.decode_encode (InputPair.encode_key_of_into hp) []
  rw [List.append_nil, hd] at hd'
  cases p with
  | childIndex c r =>
    obtain ⟨e, -, ev, hev, rfl⟩ := into_childIndex.mp hp
    have hr := decodeBytes_of_encodeBytes hev []
    rw [List.append_nil, hv] at hr
    cases hr
    exact hlen c value (List.of_mem_zip hz).1
  | extrinsicIndex => cases hd'
  | digestIndex => cases hd'

theorem recordsChange_childRootRecords (H : Hasher) (children : List (ChildIndex w × List (InputPair w)))
    (kvss : List (List (Bytes × Bytes))) (b : BlockNumber w) (k : Bytes) :
    recordsChange (childRootRecords H children kvss) b k = false := by
  rw [Bool.eq_false_iff]
  intro h
  obtain ⟨p, hp, hpk⟩ := List.any_eq_true.mp h
  obtain ⟨c, kvs, -, -, rfl⟩ := mem_childRootRecords.mp hp
  simp [InputPair.key] at hpk

theorem digestValue_filterMap {blocks : List (BlockNumber w)}
    {F : BlockNumber w → Option (BlockNumber w × List (Bytes × Bytes))} (hF : ∀ b p, F b = some p → p.1 = b)
    {g : BlockNumber w → Bytes → Bool} {k : Bytes}
    (hg : ∀ b ∈ blocks, ((F b).map fun p => changedIn p.2 b k).getD false = g b k) :
    digestValue (blocks.filterMap F) k = blocks.filter fun b => g b k := by
  induction blocks with
  | nil => rfl
  | cons b rest ih =>
    have ih' := ih fun b' hb' => hg b' (List.mem_cons_of_mem _ hb')
    rw [List.filterMap_cons, List.filter_cons, ← hg b (List.mem_cons_self _ _)]
    cases hb : F b with
    | none => simpa using ih'
    | some p =>
      obtain ⟨b', t⟩ := p
      obtain rfl : b' = b := hF b _ hb
      unfold digestValue at ih' ⊢
      by_cases hc : changedIn t b' k <;> simp [List.filter_cons, hc, ih']

theorem DigestStream.digestOf {block : BlockNumber w} {tries : List (BlockNumber w × List (Bytes × Bytes))}
    {s : List (InputPair w)} {blocks : List (BlockNumber w)} {changed : BlockNumber w → Bytes → Bool}
    (h : DigestStream block tries s) (hv : ∀ k, digestValue tries k = blocks.filter fun b => changed b k) :
    DigestOf block blocks changed s := by
  obtain ⟨ks, hks, hmem, -, rfl⟩ := h
  refine ⟨ks, hks, fun k => (hmem k).trans ?_, by simp only [hv]⟩
  rw [← digestValue_ne_nil, hv, Ne, List.filter_eq_nil_iff]
  simp

/-- The storage holds what `build_changes_trie` wrote for block `b` from the streams
`input`: `prepare_input` returned them for block `b`, the storage's root of `b` is the
root of the top trie, and every trie of the `MemoryDB` is served under its root. -/
structure StoredBuild (H : Hasher) (storage : Storage w) (parent : AnchorBlockId w) (b : BlockNumber w)
    (input : List (InputPair w) × List (ChildIndex w × List (InputPair w))) : Prop where
  prepared : ∃ (sched : DigestSchedule w) (backend : Backend) (storage' : Storage w)
    (config : ConfigurationRange w) (o : OverlayedChanges) (parent' : AnchorBlockId w),
    parent'.number + 1 = b ∧ prepareInput H sched backend storage' config o parent' = .ok input
  stored : ∃ mdb root, materialize H input = .ok (mdb, root) ∧ storage.root parent b = .ok (some root) ∧
    ∀ r trie, (r, trie) ∈ mdb → storage.trie r = trie.toList

section Stored

variable {H : Hasher} {storage : Storage w} {parent : AnchorBlockId w} {b : BlockNumber w}
  {input : List (InputPair w) × List (ChildIndex w × List (InputPair w))}

theorem StoredBuild.tries (hs : StoredBuild H storage parent b input) :
    ∃ kvss kvs, List.Forall₂ (fun c kvs => encodePairs c.2 = .ok kvs) input.2 kvss ∧
      encodePairs (input.1 ++ childRootRecords H input.2 kvss) = .ok kvs ∧
      storage.root parent b = .ok (some (H.trieRoot (trieOf kvs).toList)) ∧
      storage.trie (H.trieRoot (trieOf kvs).toList) = (trieOf kvs).toList ∧
      ∀ c ckvs, (c, ckvs) ∈ input.2.zip kvss →
        storage.trie (H.trieRoot (trieOf ckvs).toList) = (trieOf ckvs).toList := by
  obtain ⟨mdb, root, hm, hr, htrie⟩ := hs.stored
  rw [← Prod.mk.eta (p := input), materialize_eq, Outcome.bind_eq_ok] at hm
  obtain ⟨kvss, hkvss, hm⟩ := hm
  obtain ⟨kvs, hkvs, hm⟩ := Outcome.bind_eq_ok.mp hm
  cases hm
  exact ⟨kvss, kvs, Outcome.mapM_eq_ok.mp hkvss, hkvs, hr,
    htrie _ _ (List.mem_append_right _ (List.mem_singleton_self _)), fun c ckvs hz =>
      htrie _ _ (List.mem_append_left _ (List.mem_map_of_mem (trieEntry H) (List.of_mem_zip hz).2))⟩

/-- The top trie of a build, read by the digest's scan of the built block: its
`ChildIndex` values are well formed, and the child roots it finds are, for each child
whose stream encodes to some pairs, the root of that child's trie. -/
theorem childRoots_of_build {sched : DigestSchedule w} {backend : Backend} {storage' : Storage w}
    {config : ConfigurationRange w} {o : OverlayedChanges} {parent' : AnchorBlockId w}
    {top : List (InputPair w)} {children : List (ChildIndex w × List (InputPair w))}
    {kvss : List (List (Bytes × Bytes))} {kvs : List (Bytes × Bytes)}
    (hp : prepareInput H sched backend storage' config o parent' = .ok (top, children))
    (hc : List.Forall₂ (fun c kvs => encodePairs c.2 = .ok kvs) children kvss)
    (hkvs : encodePairs (top ++ childRootRecords H children kvss) = .ok kvs) :
    ChildRootsWellFormed H (trieOf kvs).toList (parent'.number + 1) ∧
      ∃ roots, scanChildRoots H (trieOf kvs).toList (parent'.number + 1) = .ok roots ∧
        ∀ sk r, roots.get? sk = some r ↔ ∃ s ckvs, lookupKey ⟨parent'.number + 1, sk⟩ children = some s ∧
          ((⟨parent'.number + 1, sk⟩, s), ckvs) ∈ children.zip kvss ∧ ckvs ≠ [] ∧
          r = H.trieRoot (trieOf ckvs).toList := by
  have hF := forall₂_of_encodePairs hkvs
  have hnd := topRecords_nodup hp hc
  have hcrr : ∀ c r, InputPair.childIndex c r ∈ top ++ childRootRecords H children kvss →
      InputPair.childIndex c r ∈ childRootRecords H children kvss := fun c r hcr =>
    (List.mem_append.mp hcr).resolve_left fun htop => key_of_mem_top hp htop c rfl
  have hlen : ∀ c r, InputPair.childIndex c r ∈ top ++ childRootRecords H children kvss →
      r.length = H.outLen := fun c r hcr => by
    obtain ⟨c', ckvs, -, -, he⟩ := mem_childRootRecords.mp (hcrr c r hcr)
    cases he
    exact H.length_trieRoot _
  obtain ⟨roots, hroots, hget⟩ := scanChildRoots_trieOf hF hnd (parent'.number + 1) fun sk r => hlen ⟨_, sk⟩ r
  obtain ⟨-, -, -, -, -, hkeys⟩ := prepareInput_streams hp
  refine ⟨childRootsWellFormed_trieOf hF hnd hlen _, roots, hroots, fun sk r => ?_⟩
  rw [hget]
  constructor
  · intro hmem
    obtain ⟨⟨c, s⟩, ckvs, hz, hne, he⟩ := mem_childRootRecords.mp (hcrr _ r hmem)
    cases he
    exact ⟨s, ckvs, lookupKey_of_mem hkeys (List.of_mem_zip hz).1, hz, hne, rfl⟩
  · rintro ⟨s, ckvs, -, hz, hne, rfl⟩
    exact List.mem_append_right _ (mem_childRootRecords.mpr ⟨_, ckvs, hz, hne, rfl⟩)

/-- What the digest of a later block reads from a stored build of block `b`: the root of
`b`, whose trie has well-formed `ChildIndex` values and records exactly the changes of
the top stream, and the child roots the scan finds in it, one for each child whose stream
is non-empty, whose trie records exactly the changes of that child's stream. -/
theorem StoredBuild.read (hs : StoredBuild H storage parent b input) :
    ∃ root roots, storage.root parent b = .ok (some root) ∧
      scanChildRoots H (storage.trie root) b = .ok roots ∧
      ChildRootsWellFormed H (storage.trie root) b ∧
      (∀ k, changedIn (storage.trie root) b k = recordsChange input.1 b k) ∧
      ∀ sk, (sk ∈ roots.keys ↔ childStream input.2 b sk ≠ []) ∧
        ∀ r, roots.get? sk = some r → ∀ k,
          changedIn (storage.trie r) b k = recordsChange (childStream input.2 b sk) b k := by
  rcases input with ⟨top, children⟩
  obtain ⟨sched, backend, storage', config, o, parent', rfl, hp⟩ := hs.prepared
  obtain ⟨kvss, kvs, hc, hkvs, hr, ht, hchild⟩ := hs.tries
  obtain ⟨hwf, roots, hroots, hgetc⟩ := childRoots_of_build hp hc hkvs
  rw [← ht] at hroots hwf
  refine ⟨_, roots, hr, hroots, hwf, fun k => ?_, fun sk => ⟨?_, fun r hrr k => ?_⟩⟩
  · rw [ht, changedIn_trieOf (forall₂_of_encodePairs hkvs) (topRecords_nodup hp hc), recordsChange_append,
      recordsChange_childRootRecords, Bool.or_false]
  · rw [BTreeMap.mem_keys, Option.isSome_iff_exists, childStream]
    simp only [hgetc]
    cases hl : lookupKey ⟨parent'.number + 1, sk⟩ children with
    | none => simp
    | some s =>
      obtain ⟨ckvs, hz, henc⟩ := (exists_mem_zip_of_forall₂ hc).1 _ (mem_of_lookupKey hl)
      have hiff : ckvs = [] ↔ s = [] := by
        rw [← List.isEmpty_iff, ← List.isEmpty_iff, isEmpty_of_encodePairs henc]
      rw [Option.getD_some]
      constructor
      · rintro ⟨r, s', ckvs', hs', hz', hne, -⟩
        cases hs'
        have henc' : encodePairs s = .ok ckvs' := List.forall₂_zip hc hz'
        rw [henc] at henc'
        cases henc'
        exact fun h => hne (hiff.mpr h)
      · exact fun hne => ⟨_, s, ckvs, rfl, hz, fun h => hne (hiff.mp h), rfl⟩
  · obtain ⟨s, ckvs, hl, hz, -, rfl⟩ := (hgetc sk r).mp hrr
    rw [childStream, hl, Option.getD_some, hchild _ _ hz]
    exact changedIn_trieOf (forall₂_of_encodePairs (List.forall₂_zip hc hz))
      (childStream_nodup hp (List.of_mem_zip hz).1) _ k

theorem StoredBuild.topChanged (hs : StoredBuild H storage parent b input) (k : Bytes) :
    ((rootTrie? storage parent b).map fun t => changedIn t b k).getD false = recordsChange input.1 b k := by
  obtain ⟨root, -, hr, -, -, htrie, -⟩ := hs.read
  simp [rootTrie?, hr, htrie]

theorem StoredBuild.childChanged (hs : StoredBuild H storage parent b input) (sk k : Bytes) :
    ((childRootOf H storage parent b sk).map fun r => changedIn (storage.trie r) b k).getD false =
      recordsChange (childStream input.2 b sk) b k := by
  obtain ⟨root, roots, hr, hsc, -, -, hkeys⟩ := hs.read
  have hroot : childRootOf H storage parent b sk = roots.get? sk := by simp [childRootOf, hr, hsc]
  rw [hroot]
  cases hget : roots.get? sk with
  | none =>
    have hnil : childStream input.2 b sk = [] :=
      not_not.mp fun hne => by simpa [BTreeMap.mem_keys, hget] using (hkeys sk).1.mpr hne
    simp [hnil]
  | some r => exact (hkeys sk).2 r hget k

end Stored

section Digest

variable {H : Hasher} {storage : Storage w} {parent : AnchorBlockId w}

theorem digestValue_topTries {blocks : List (BlockNumber w)} {g : BlockNumber w → Bytes → Bool} {k : Bytes}
    (hg : ∀ b ∈ blocks, ((rootTrie? storage parent b).map fun t => changedIn t b k).getD false = g b k) :
    digestValue (topTries storage parent blocks) k = blocks.filter fun b => g b k :=
  digestValue_filterMap (fun _ _ h => by obtain ⟨_, -, rfl⟩ := Option.map_eq_some'.mp h; rfl)
    fun b hb => by rw [← hg b hb, Option.map_map]; rfl

theorem digestValue_childTries {blocks : List (BlockNumber w)} {sk : Bytes} {g : BlockNumber w → Bytes → Bool}
    {k : Bytes} (hg : ∀ b ∈ blocks,
      ((childRootOf H storage parent b sk).map fun r => changedIn (storage.trie r) b k).getD false = g b k) :
    digestValue (childTries H storage parent blocks sk) k = blocks.filter fun b => g b k :=
  digestValue_filterMap (fun _ _ h => by obtain ⟨_, -, rfl⟩ := Option.map_eq_some'.mp h; rfl)
    fun b hb => by rw [← hg b hb, Option.map_map]; rfl

variable {blocks : List (BlockNumber w)}
  {inputs : BlockNumber w → List (InputPair w) × List (ChildIndex w × List (InputPair w))}

/-- A child is found by the digest over stored builds exactly when one of the covered
builds had a non-empty stream for it. -/
theorem foundByDigest_iff (hbuilt : ∀ b ∈ blocks, StoredBuild H storage parent b (inputs b)) (sk : Bytes) :
    FoundByDigest H storage parent blocks sk ↔ ∃ b ∈ blocks, childStream (inputs b).2 b sk ≠ [] := by
  constructor
  · rintro ⟨b, hb, root', roots', hr', hs', hk⟩
    obtain ⟨root, roots, hr, hs, -, -, hkeys⟩ := (hbuilt b hb).read
    rw [hr] at hr'
    cases hr'
    rw [hs] at hs'
    cases hs'
    exact ⟨b, hb, (hkeys sk).1.mp hk⟩
  · rintro ⟨b, hb, hne⟩
    obtain ⟨root, roots, hr, hs, -, -, hkeys⟩ := (hbuilt b hb).read
    exact ⟨b, hb, root, roots, hr, hs, (hkeys sk).1.mpr hne⟩

/-- `prepare_digest_input` over a storage that holds what `build_changes_trie` wrote for
each of the strictly ascending covered blocks: it does not panic and returns `Ok`; its
top stream lists, for every key, exactly the covered blocks whose top stream recorded a
change of the key; it has a child stream for exactly the children that a covered build
had a non-empty stream for; and each child stream lists, for every key, exactly the
covered blocks whose stream of that child recorded a change of the key. -/
theorem prepareDigestInput_of_stored_builds (sched : DigestSchedule w) (config : ConfigurationRange w)
    (block : BlockNumber w)
    (inputs : BlockNumber w → List (InputPair w) × List (ChildIndex w × List (InputPair w)))
    (hasc : (digestBlocks sched config block).Pairwise (· < ·))
    (hbuilt : ∀ b ∈ digestBlocks sched config block, StoredBuild H storage parent b (inputs b)) :
    ∃ top children, prepareDigestInput H sched parent config block storage = .ok (top, children) ∧
      DigestOf block (digestBlocks sched config block) (fun b => recordsChange (inputs b).1 b) top ∧
      (∀ c, c ∈ children.keys ↔ c.block = block ∧
        ∃ b ∈ digestBlocks sched config block, childStream (inputs b).2 b c.storageKey ≠ []) ∧
      ∀ sk s, children.get? ⟨block, sk⟩ = some s →
        DigestOf block (digestBlocks sched config block)
          (fun b => recordsChange (childStream (inputs b).2 b sk) b) s := by
  obtain ⟨acc, hacc, htop, hchild⟩ := foldlM_digestStep_records [] _ (BTreeMap.empty, BTreeMap.empty) hasc
    (fun b hb => let ⟨root, _, hr, _⟩ := (hbuilt b hb).read; ⟨root, hr⟩)
    (fun b hb root hr => by
      obtain ⟨root', _, hr', -, hwf, -⟩ := (hbuilt b hb).read
      rw [hr] at hr'
      cases hr'
      exact hwf)
    ⟨DigestMap.records_empty, childRecords_empty⟩
  have h : prepareDigestInput H sched parent config block storage =
      .ok (digestPairs acc.1, acc.2.map digestPairs) :=
    prepareDigestInput_eq_ok.mpr ⟨acc, hacc, rfl⟩
  refine ⟨_, _, h, (htop.digestStream (hasc.sublist (map_fst_topTries_sublist _))).digestOf
    fun k => digestValue_topTries fun b hb => (hbuilt b hb).topChanged k, fun c => ?_, fun sk s hs => ?_⟩
  · rw [prepareDigestInput_children_keys h, foundByDigest_iff hbuilt]
  · rw [BTreeMap.get?_map, Option.map_eq_some'] at hs
    obtain ⟨m, hm, rfl⟩ := hs
    have hrec := (hchild sk).2
    rw [hm, Option.getD_some] at hrec
    exact (hrec.digestStream (hasc.sublist (map_fst_childTries_sublist _ sk))).digestOf
      fun k => digestValue_childTries fun b hb => (hbuilt b hb).childChanged sk k

end Digest

def prefixHasher : Hasher :=
  ⟨32, by decide, fun kvs => ((kvs.flatMap fun kv => kv.1 ++ kv.2) ++ List.replicate 32 0).take 32,
    fun _ => by simp⟩

def previousBlockDigest : DigestSchedule 4 := ⟨fun _ b => if b = 2 then [1] else [], fun _ _ _ => none⟩

/-- An overlay whose prospective layer changed key `[2]` in extrinsic 1 and key `[7]` of
child `[5]` in extrinsic 0. -/
def topAndChildOverlay : OverlayedChanges :=
  ⟨⟨⟨[([2], ⟨some [1], some (BTreeSet.ofList [1])⟩)], by decide⟩,
      ⟨[([5], ⟨[([7], ⟨some [1], some (BTreeSet.ofList [0])⟩)], by decide⟩)], by decide⟩⟩,
    ⟨⟨[], List.nodup_nil⟩, ⟨[], List.nodup_nil⟩⟩, some ⟨4, 1⟩⟩

def blockOneInput : List (InputPair 4) × List (ChildIndex 4 × List (InputPair 4)) :=
  ([.extrinsicIndex ⟨1, [2]⟩ [1]], [(⟨1, [5]⟩, [.extrinsicIndex ⟨1, [7]⟩ [0]])])

def blockOneBuild : MemoryDB × Bytes :=
  match materialize prefixHasher blockOneInput with
  | .ok r => r
  | _ => ([], [])

def blockOneStorage : Storage 4 where
  buildAnchor _ := .ok ⟨[], 1⟩
  root _ b := .ok (if b = 1 then some blockOneBuild.2 else none)
  trie r := ((blockOneBuild.1.find? (·.1 = r)).map (·.2.toList)).getD []

theorem storedBuild_blockOne : StoredBuild prefixHasher blockOneStorage ⟨[], 1⟩ 1 blockOneInput := by
  refine ⟨⟨previousBlockDigest, allKeysExist, blockOneStorage, ⟨⟨4, 1⟩, 0, none⟩, topAndChildOverlay,
    ⟨[], 0⟩, rfl, by decide⟩, blockOneBuild.1, blockOneBuild.2, by rfl, by rfl, fun r trie h => ?_⟩
  have hm : blockOneBuild.1 = [trieEntry prefixHasher [([1, 1, 0, 0, 0, 4, 7], [4, 0, 0, 0, 0])],
      trieEntry prefixHasher [([1, 1, 0, 0, 0, 4, 2], [4, 1, 0, 0, 0]),
        ([3, 1, 0, 0, 0, 4, 5], 128 :: (trieEntry prefixHasher [([1, 1, 0, 0, 0, 4, 7], [4, 0, 0, 0, 0])]).1)]] := by
    rfl
  rw [hm] at h
  simp only [List.mem_cons, List.mem_singleton, Prod.mk.injEq, List.not_mem_nil, or_false] at h
  rcases h with ⟨rfl, rfl⟩ | ⟨rfl, rfl⟩ <;> rfl

theorem prepareDigestInput_of_stored_builds_block_one :
    (digestBlocks previousBlockDigest ⟨⟨4, 1⟩, 0, none⟩ 2).Pairwise (· < ·) ∧
    (∀ b ∈ digestBlocks previousBlockDigest ⟨⟨4, 1⟩, 0, none⟩ 2,
      StoredBuild prefixHasher blockOneStorage ⟨[], 1⟩ b blockOneInput) ∧
    ∃ top children, prepareDigestInput prefixHasher previousBlockDigest ⟨[], 1⟩ ⟨⟨4, 1⟩, 0, none⟩ 2
        blockOneStorage = .ok (top, children) ∧
      DigestOf 2 (digestBlocks previousBlockDigest ⟨⟨4, 1⟩, 0, none⟩ 2)
        (fun b => recordsChange blockOneInput.1 b) top ∧
      (∀ c, c ∈ children.keys ↔ c.block = 2 ∧ ∃ b ∈ digestBlocks previousBlockDigest ⟨⟨4, 1⟩, 0, none⟩ 2,
        childStream blockOneInput.2 b c.storageKey ≠ []) ∧
      ∀ sk s, children.get? ⟨2, sk⟩ = some s →
        DigestOf 2 (digestBlocks previousBlockDigest ⟨⟨4, 1⟩, 0, none⟩ 2)
          (fun b => recordsChange (childStream blockOneInput.2 b sk) b) s :=
  have hasc : (digestBlocks previousBlockDigest ⟨⟨4, 1⟩, 0, none⟩ (2 : BlockNumber 4)).Pairwise (· < ·) :=
    List.pairwise_singleton _ _
  have hbuilt : ∀ b ∈ digestBlocks previousBlockDigest ⟨⟨4, 1⟩, 0, none⟩ (2 : BlockNumber 4),
      StoredBuild prefixHasher blockOneStorage ⟨[], 1⟩ b blockOneInput := fun b hb => by
    obtain rfl : b = 1 := List.mem_singleton.mp hb
    exact storedBuild_blockOne
  ⟨hasc, hbuilt, prepareDigestInput_of_stored_builds previousBlockDigest ⟨⟨4, 1⟩, 0, none⟩ 2
    (fun _ => blockOneInput) hasc hbuilt⟩

end Substrate.ChangesTrie
