import Substrate.ChangesTrie.Children

/-! What `prepare_digest_input` records for each key: the covered blocks whose tries
record a change of the key, in the order of the blocks. `insert_to_map` checks only
the last block of a key's list for a repeat; the blocks come in ascending order and
the scans of one block only ever append that block, so the check is enough. -/
namespace Substrate.ChangesTrie

open Codec

variable {w : Nat}

/-- The key an `ExtrinsicIndex` or `DigestIndex` record of block `b` is about, when the
raw trie key decodes to one. -/
def changedKey? (b : BlockNumber w) (raw : Bytes) : Option Bytes :=
  match InputKey.decode (w := w) raw with
  | .ok (.extrinsicIndex k, _) => if k.block = b then some k.key else none
  | .ok (.digestIndex k, _) => if k.block = b then some k.key else none
  | _ => none

/-- `k` changed in block `b` by the trie `kvs` of that block: some key of the trie is an
`ExtrinsicIndex` or `DigestIndex` record of block `b` for `k`. -/
def changedIn (kvs : List (Bytes × Bytes)) (b : BlockNumber w) (k : Bytes) : Bool :=
  kvs.any fun kv => changedKey? b kv.1 == some k

def digestValue (tries : List (BlockNumber w × List (Bytes × Bytes))) (k : Bytes) :
    List (BlockNumber w) :=
  (tries.filter fun bt => changedIn bt.2 bt.1 k).map Prod.fst

theorem changedKey?_eq_some {b : BlockNumber w} {raw k : Bytes} :
    changedKey? b raw = some k ↔ ∃ rest,
      InputKey.decode raw = .ok (.extrinsicIndex ⟨b, k⟩, rest) ∨
        InputKey.decode raw = .ok (.digestIndex ⟨b, k⟩, rest) := by
  unfold changedKey?
  rcases InputKey.decode (w := w) raw with e | ⟨⟨b', k'⟩ | ⟨b', k'⟩ | _, rest⟩ <;> simp [eq_comm]

theorem digestValue_append (tries : List (BlockNumber w × List (Bytes × Bytes)))
    (b : BlockNumber w) (kvs : List (Bytes × Bytes)) (k : Bytes) :
    digestValue (tries ++ [(b, kvs)]) k = digestValue tries k ++ if changedIn kvs b k then [b] else [] := by
  unfold digestValue
  rw [List.filter_append, List.map_append, List.filter_singleton]
  cases changedIn kvs b k <;> rfl

theorem mem_digestValue {tries : List (BlockNumber w × List (Bytes × Bytes))} {k : Bytes}
    {b : BlockNumber w} : b ∈ digestValue tries k ↔ ∃ kvs, (b, kvs) ∈ tries ∧ changedIn kvs b k := by
  simp [digestValue]

theorem digestValue_ne_nil {tries : List (BlockNumber w × List (Bytes × Bytes))} {k : Bytes} :
    digestValue tries k ≠ [] ↔ ∃ bt ∈ tries, changedIn bt.2 bt.1 k := by
  simp [digestValue, List.filter_eq_nil_iff]

theorem digestValue_pairwise {tries : List (BlockNumber w × List (Bytes × Bytes))}
    (h : (tries.map Prod.fst).Pairwise (· < ·)) (k : Bytes) :
    (digestValue tries k).Pairwise (· < ·) :=
  h.sublist ((List.filter_sublist _).map _)

def familyKeys (kvs : List (Bytes × Bytes)) (pfx : Bytes) (select : InputKey w → Option Bytes) :
    List Bytes :=
  (withPrefix kvs pfx).filterMap fun kv =>
    match InputKey.decode (w := w) kv.1 with
    | .ok (k, _) => select k
    | .error _ => none

theorem scanFamily_eq (kvs : List (Bytes × Bytes)) (pfx : Bytes) (select : InputKey w → Option Bytes)
    (block b : BlockNumber w) (map : DigestMap w) :
    scanFamily kvs pfx select block b map = (familyKeys kvs pfx select).foldl (insertToMap block b) map := by
  unfold scanFamily familyKeys
  induction withPrefix kvs pfx generalizing map with
  | nil => rfl
  | cons kv rest ih =>
    rw [List.foldl_cons, ih, List.filterMap_cons]
    rcases InputKey.decode (w := w) kv.1 with _ | ⟨k, _⟩
    · rfl
    · dsimp only
      cases select k <;> rfl

theorem mem_familyKeys {kvs : List (Bytes × Bytes)} {pfx : Bytes} {select : InputKey w → Option Bytes}
    {k : Bytes} : k ∈ familyKeys kvs pfx select ↔
      ∃ kv ∈ kvs, pfx <+: kv.1 ∧ ∃ key rest, InputKey.decode kv.1 = .ok (key, rest) ∧ select key = some k := by
  simp only [familyKeys, List.mem_filterMap, withPrefix, List.mem_filter, List.isPrefixOf_iff_prefix,
    and_assoc]
  refine exists_congr fun kv => and_congr_right fun _ => and_congr_right fun _ => ?_
  rcases InputKey.decode (w := w) kv.1 with _ | ⟨key, rest⟩ <;> simp

/-- The keys a scan by a family's prefix inserts are those of the family's records: a
raw key decodes with that prefix exactly when it decodes to a record `mk k`, and the
scan selects `k` from it. -/
theorem mem_familyKeys_of_prefix {kvs : List (Bytes × Bytes)} {pfx : Bytes}
    {select : InputKey w → Option Bytes} {mk : Bytes → InputKey w} {k : Bytes}
    (hpfx : ∀ {raw key rest}, InputKey.decode raw = .ok (key, rest) → (pfx <+: raw ↔ ∃ k', key = mk k'))
    (hsel : ∀ k', select (mk k') = some k') :
    k ∈ familyKeys kvs pfx select ↔ ∃ kv ∈ kvs, ∃ rest, InputKey.decode kv.1 = .ok (mk k, rest) := by
  rw [mem_familyKeys]
  refine exists_congr fun kv => and_congr_right fun _ =>
    ⟨?_, fun ⟨rest, hd⟩ => ⟨(hpfx hd).mpr ⟨k, rfl⟩, _, rest, hd, hsel k⟩⟩
  rintro ⟨hp, key, rest, hd, hk⟩
  obtain ⟨k', rfl⟩ := (hpfx hd).mp hp
  obtain rfl := Option.some_inj.mp ((hsel k').symm.trans hk)
  exact ⟨rest, hd⟩

theorem mem_familyKeys_extrinsic {kvs : List (Bytes × Bytes)} {b : BlockNumber w} {k : Bytes} :
    k ∈ familyKeys kvs (ExtrinsicIndex.keyNeutralPrefix b) (InputKey.extrinsicKey? (w := w)) ↔
      ∃ kv ∈ kvs, ∃ rest, InputKey.decode kv.1 = .ok (.extrinsicIndex ⟨b, k⟩, rest) :=
  mem_familyKeys_of_prefix (fun hd => (decode_keyNeutralPrefix_iff hd b).1) fun _ => rfl

theorem mem_familyKeys_digest {kvs : List (Bytes × Bytes)} {b : BlockNumber w} {k : Bytes} :
    k ∈ familyKeys kvs (DigestIndex.keyNeutralPrefix b) (InputKey.digestKey? (w := w)) ↔
      ∃ kv ∈ kvs, ∃ rest, InputKey.decode kv.1 = .ok (.digestIndex ⟨b, k⟩, rest) :=
  mem_familyKeys_of_prefix (fun hd => (decode_keyNeutralPrefix_iff hd b).2.1) fun _ => rfl

/-- A key changed in a block exactly when one of the block's two scans inserts it. -/
theorem changedIn_eq (kvs : List (Bytes × Bytes)) (b : BlockNumber w) (k : Bytes) :
    changedIn kvs b k =
      (decide (k ∈ familyKeys kvs (ExtrinsicIndex.keyNeutralPrefix b) (InputKey.extrinsicKey? (w := w))) ||
        decide (k ∈ familyKeys kvs (DigestIndex.keyNeutralPrefix b) (InputKey.digestKey? (w := w)))) := by
  rw [Bool.eq_iff_iff, Bool.or_eq_true, decide_eq_true_iff, decide_eq_true_iff, mem_familyKeys_extrinsic,
    mem_familyKeys_digest]
  simp only [changedIn, List.any_eq_true, beq_iff_eq, changedKey?_eq_some, exists_or, and_or_left]

/-- A digest map holds, for every key whose list in `vals` is not empty, the record
keyed by the block being built and the key, with that list as its value, and nothing
else. -/
def DigestMap.Records (block : BlockNumber w) (m : DigestMap w) (vals : Bytes → List (BlockNumber w)) :
    Prop :=
  ∀ k, m.get? k = if (vals k).isEmpty then none else some (⟨block, k⟩, vals k)

section Records

variable {block b : BlockNumber w} {m : DigestMap w}

theorem DigestMap.records_empty : DigestMap.Records block (BTreeMap.empty : DigestMap w) fun _ => [] :=
  fun _ => rfl

theorem DigestMap.Records.congr {f g : Bytes → List (BlockNumber w)} (hm : m.Records block f)
    (h : ∀ k, f k = g k) : m.Records block g :=
  fun k => h k ▸ hm k

theorem get?_insertToMap_of_ne {key k : Bytes} (h : k ≠ key) :
    (insertToMap block b m key).get? k = m.get? k := by
  unfold insertToMap
  split
  · exact (BTreeMap.get?_insert ..).trans (if_neg (Ne.symm h))
  · split_ifs
    · rfl
    · exact (BTreeMap.get?_insert ..).trans (if_neg (Ne.symm h))

/-- The step of the scans: inserting `key` appends `b` to its list unless `b` is already
there. Before the insertion, a list holds the blocks before `b` (`old`), then `b`
when `seen` says so. -/
theorem DigestMap.Records.insertToMap {old : Bytes → List (BlockNumber w)} {seen : Bytes → Bool}
    (hm : m.Records block fun k => old k ++ if seen k then [b] else []) (hold : ∀ k, b ∉ old k)
    (key : Bytes) :
    (ChangesTrie.insertToMap block b m key).Records block
      fun k => old k ++ if seen k || k == key then [b] else [] := by
  intro k
  by_cases hk : k = key
  case neg =>
    rw [get?_insertToMap_of_ne hk, hm k]
    simp [hk]
  case pos =>
    subst hk
    have hmk := hm k
    unfold ChangesTrie.insertToMap
    cases hs : seen k
    case true =>
      simp only [hs, if_true] at hmk
      simp [hmk, hs]
    case false =>
      simp only [hs, Bool.false_eq_true, if_false, List.append_nil] at hmk
      rw [hmk]
      cases ho : old k with
      | nil => simp [ho]
      | cons a l =>
        have hlast : (a :: l).getLast? ≠ some b := fun h => hold k (ho ▸ List.mem_of_getLast?_eq_some h)
        simp [ho, hlast]

theorem DigestMap.Records.foldl_insertToMap {old : Bytes → List (BlockNumber w)} {seen : Bytes → Bool}
    (hm : m.Records block fun k => old k ++ if seen k then [b] else []) (hold : ∀ k, b ∉ old k)
    (keys : List Bytes) :
    (keys.foldl (ChangesTrie.insertToMap block b) m).Records block
      fun k => old k ++ if seen k || decide (k ∈ keys) then [b] else [] := by
  induction keys generalizing m seen with
  | nil => simpa using hm
  | cons key rest ih =>
    refine (ih (hm.insertToMap hold key)).congr fun k => ?_
    simp [Bool.or_assoc]

/-- The step of the fold over the blocks, for one map: the two scans of the trie of
block `b` append `b` to the list of every key that changed in it. -/
theorem DigestMap.Records.scanKeys {tries : List (BlockNumber w × List (Bytes × Bytes))}
    (hm : m.Records block (digestValue tries)) (hb : ∀ bt ∈ tries, bt.1 ≠ b)
    (kvs : List (Bytes × Bytes)) :
    (ChangesTrie.scanKeys kvs block b m).Records block (digestValue (tries ++ [(b, kvs)])) := by
  have hold : ∀ k, b ∉ digestValue tries k := fun k hk => by
    obtain ⟨kvs', hkvs, -⟩ := mem_digestValue.mp hk
    exact hb _ hkvs rfl
  have h₀ : m.Records block fun k => digestValue tries k ++ if false then [b] else [] :=
    hm.congr fun k => (List.append_nil _).symm
  rw [ChangesTrie.scanKeys, scanFamily_eq, scanFamily_eq]
  refine ((h₀.foldl_insertToMap hold _).foldl_insertToMap hold _).congr fun k => ?_
  rw [digestValue_append, changedIn_eq, Bool.false_or]

/-- A `DigestIndex` stream of `block` over some blocks with their tries: one record for
each key that changed in one of them, in strictly ascending key order, whose value is
the strictly ascending list of the blocks in which the key changed. -/
def DigestStream (block : BlockNumber w) (tries : List (BlockNumber w × List (Bytes × Bytes)))
    (s : List (InputPair w)) : Prop :=
  ∃ ks : List Bytes, ks.Pairwise (· < ·) ∧
    (∀ k, k ∈ ks ↔ ∃ bt ∈ tries, changedIn bt.2 bt.1 k) ∧
    (∀ k ∈ ks, (digestValue tries k).Pairwise (· < ·)) ∧
    s = ks.map fun k => .digestIndex ⟨block, k⟩ (digestValue tries k)

theorem DigestMap.Records.digestStream {tries : List (BlockNumber w × List (Bytes × Bytes))}
    (hm : m.Records block (digestValue tries)) (hasc : (tries.map Prod.fst).Pairwise (· < ·)) :
    DigestStream block tries (digestPairs m) := by
  refine ⟨m.keys, List.pairwise_map.mpr m.sorted, fun k => ?_, fun k _ => digestValue_pairwise hasc k, ?_⟩
  · rw [BTreeMap.mem_keys, hm k, ← digestValue_ne_nil]
    cases digestValue tries k <;> simp
  · rw [digestPairs, BTreeMap.keys, List.map_map]
    refine List.map_congr_left fun e he => ?_
    have he' := (hm e.1).symm.trans (BTreeMap.get?_eq_some_iff.mpr he)
    split_ifs at he' with h
    rw [← Option.some.inj he']
    rfl

/-- The child map holds, for every child storage key, the digest map of the child tries
given for it, when there are any, and no map otherwise. -/
def ChildRecords (block : BlockNumber w) (cm : BTreeMap (ChildIndex w) (DigestMap w))
    (ctries : Bytes → List (BlockNumber w × List (Bytes × Bytes))) : Prop :=
  ∀ sk, (cm.get? ⟨block, sk⟩).isSome = !(ctries sk).isEmpty ∧
    ((cm.get? ⟨block, sk⟩).getD BTreeMap.empty).Records block (digestValue (ctries sk))

theorem childRecords_empty : ChildRecords block (BTreeMap.empty : BTreeMap (ChildIndex w) (DigestMap w))
    fun _ => [] :=
  fun _ => ⟨rfl, DigestMap.records_empty⟩

theorem ChildRecords.congr {cm : BTreeMap (ChildIndex w) (DigestMap w)}
    {f g : Bytes → List (BlockNumber w × List (Bytes × Bytes))} (hcm : ChildRecords block cm f)
    (h : ∀ sk, f sk = g sk) : ChildRecords block cm g :=
  fun sk => h sk ▸ hcm sk

theorem ChildRecords.insert {cm : BTreeMap (ChildIndex w) (DigestMap w)}
    {ctries : Bytes → List (BlockNumber w × List (Bytes × Bytes))} (hcm : ChildRecords block cm ctries)
    {sk₀ : Bytes} (hb : ∀ bt ∈ ctries sk₀, bt.1 ≠ b) (kvs : List (Bytes × Bytes)) :
    ChildRecords block
      (cm.insert ⟨block, sk₀⟩ (scanKeys kvs block b ((cm.get? ⟨block, sk₀⟩).getD BTreeMap.empty)))
      fun sk => ctries sk ++ if sk = sk₀ then [(b, kvs)] else [] := by
  intro sk
  rw [BTreeMap.get?_insert]
  by_cases h : sk = sk₀
  case pos =>
    subst h
    simp only [if_true, Option.isSome_some, Option.getD_some]
    exact ⟨by simp, (hcm sk).2.scanKeys hb kvs⟩
  case neg =>
    simp only [ChildIndex.mk.injEq, true_and, Ne.symm h, h, if_false, List.append_nil]
    exact hcm sk

/-- The step of the fold over the blocks, for the child maps: the tries of the children
the `ChildIndex` scan of block `b` found are scanned into their maps. -/
theorem ChildRecords.foldChildTries {storage : Storage w} {cm : BTreeMap (ChildIndex w) (DigestMap w)}
    {ctries : Bytes → List (BlockNumber w × List (Bytes × Bytes))} (hcm : ChildRecords block cm ctries)
    (hb : ∀ sk, ∀ bt ∈ ctries sk, bt.1 ≠ b) (roots : BTreeMap Bytes Bytes) :
    ChildRecords block (ChangesTrie.foldChildTries storage block b cm roots)
      fun sk => ctries sk ++ ((roots.get? sk).map fun r => (b, storage.trie r)).toList := by
  suffices ∀ (l : List (Bytes × Bytes)) cm ctries, (l.map Prod.fst).Nodup → ChildRecords block cm ctries →
      (∀ sk ∈ l.map Prod.fst, ∀ bt ∈ ctries sk, bt.1 ≠ b) →
      ChildRecords block (l.foldl (fun cm e => cm.insert ⟨block, e.1⟩
          (scanKeys (storage.trie e.2) block b ((cm.get? ⟨block, e.1⟩).getD BTreeMap.empty))) cm)
        fun sk => ctries sk ++ ((lookupKey sk l).map fun r => (b, storage.trie r)).toList by
    refine (this roots.toList cm ctries roots.keys_nodup hcm fun sk _ => hb sk).congr fun sk => ?_
    rw [BTreeMap.get?_eq_lookupKey]
  intro l
  induction l with
  | nil => exact fun cm ctries _ hcm _ => fun sk => by simpa using hcm sk
  | cons e rest ih =>
    intro cm ctries hl hcm hb
    obtain ⟨hnot, hrest⟩ := List.nodup_cons.mp hl
    refine (ih _ _ hrest (hcm.insert (hb e.1 (List.mem_cons_self _ _)) (storage.trie e.2))
      fun sk hsk => ?_).congr ?_
    · have hne : sk ≠ e.1 := fun h => hnot (h ▸ hsk)
      simpa [hne] using hb sk (List.mem_cons_of_mem _ hsk)
    · intro sk
      rw [lookupKey_cons]
      by_cases h : sk = e.1
      · subst h
        rw [lookupKey_eq_none.mpr hnot]
        simp
      · simp [h, Ne.symm h]

end Records

section Tries

variable (H : Hasher) (storage : Storage w) (parent : AnchorBlockId w)

def rootTrie? (b : BlockNumber w) : Option (List (Bytes × Bytes)) :=
  match storage.root parent b with
  | .ok (some root) => some (storage.trie root)
  | _ => none

def topTries (blocks : List (BlockNumber w)) : List (BlockNumber w × List (Bytes × Bytes)) :=
  blocks.filterMap fun b => (rootTrie? storage parent b).map fun kvs => (b, kvs)

def childRootOf (b : BlockNumber w) (sk : Bytes) : Option Bytes :=
  match storage.root parent b with
  | .ok (some root) =>
    match scanChildRoots H (storage.trie root) b with
    | .ok roots => roots.get? sk
    | _ => none
  | _ => none

def childTries (blocks : List (BlockNumber w)) (sk : Bytes) : List (BlockNumber w × List (Bytes × Bytes)) :=
  blocks.filterMap fun b => (childRootOf H storage parent b sk).map fun r => (b, storage.trie r)

/-- Every `ChildIndex` record of block `b` whose value decodes holds a root of the
hasher's length, as the `copy_from_slice` of the scan requires. -/
def ChildRootsWellFormed (kvs : List (Bytes × Bytes)) (b : BlockNumber w) : Prop :=
  ∀ kv ∈ kvs, ∀ sk rest value rest', InputKey.decode kv.1 = .ok (.childIndex ⟨b, sk⟩, rest) →
    decodeBytes kv.2 = .ok (value, rest') → value.length = H.outLen

end Tries

theorem map_fst_filterMap_sublist {β : Type} {f : BlockNumber w → Option (BlockNumber w × β)}
    (hf : ∀ b p, f b = some p → p.1 = b) (blocks : List (BlockNumber w)) :
    List.Sublist ((blocks.filterMap f).map Prod.fst) blocks := by
  induction blocks with
  | nil => exact List.Sublist.slnil
  | cons b rest ih =>
    rw [List.filterMap_cons]
    cases h : f b with
    | none => exact ih.cons b
    | some p => exact (hf b p h) ▸ ih.cons₂ p.1

section Run

variable {H : Hasher} {storage : Storage w} {parent : AnchorBlockId w} {block b : BlockNumber w}

theorem map_fst_topTries_sublist (blocks : List (BlockNumber w)) :
    List.Sublist ((topTries storage parent blocks).map Prod.fst) blocks :=
  map_fst_filterMap_sublist (fun b p h => by
    obtain ⟨kvs, -, rfl⟩ := Option.map_eq_some'.mp h
    rfl) blocks

theorem map_fst_childTries_sublist (blocks : List (BlockNumber w)) (sk : Bytes) :
    List.Sublist ((childTries H storage parent blocks sk).map Prod.fst) blocks :=
  map_fst_filterMap_sublist (fun b p h => by
    obtain ⟨r, -, rfl⟩ := Option.map_eq_some'.mp h
    rfl) blocks

theorem topTries_append_of_root {pre : List (BlockNumber w)} {root : Bytes}
    (hr : storage.root parent b = .ok (some root)) :
    topTries storage parent (pre ++ [b]) = topTries storage parent pre ++ [(b, storage.trie root)] := by
  simp [topTries, rootTrie?, hr]

theorem childTries_append_of_root {pre : List (BlockNumber w)} {root : Bytes} {roots : BTreeMap Bytes Bytes}
    (hr : storage.root parent b = .ok (some root)) (hs : scanChildRoots H (storage.trie root) b = .ok roots)
    (sk : Bytes) :
    childTries H storage parent (pre ++ [b]) sk =
      childTries H storage parent pre sk ++ ((roots.get? sk).map fun r => (b, storage.trie r)).toList := by
  simp only [childTries, List.filterMap_append, List.filterMap_cons, List.filterMap_nil, childRootOf, hr, hs]
  cases roots.get? sk <;> rfl

theorem childRootStep_ok {kvs : List (Bytes × Bytes)} (hwf : ChildRootsWellFormed H kvs b)
    {kv : Bytes × Bytes} (hkv : kv ∈ withPrefix kvs (ChildIndex.keyNeutralPrefix b))
    (roots : BTreeMap Bytes Bytes) : ∃ roots', childRootStep (w := w) H roots kv = .ok roots' := by
  obtain ⟨hmem, hp⟩ := List.mem_filter.mp hkv
  unfold childRootStep
  split
  case h_1 k rest hd =>
    obtain ⟨sk, hk⟩ := ((decode_keyNeutralPrefix_iff hd b).2.2).mp (List.isPrefixOf_iff_prefix.mp hp)
    cases hk
    split
    case h_1 value rest' hv =>
      rw [copyFromSlice, if_pos (hwf kv hmem sk rest value rest' hd hv)]
      exact ⟨_, rfl⟩
    case h_2 => exact ⟨_, rfl⟩
  case h_2 => exact ⟨_, rfl⟩

theorem scanChildRoots_ok {kvs : List (Bytes × Bytes)} (hwf : ChildRootsWellFormed H kvs b) :
    ∃ roots, scanChildRoots H kvs b = .ok roots := by
  suffices ∀ l : List (Bytes × Bytes), (∀ kv ∈ l, kv ∈ withPrefix kvs (ChildIndex.keyNeutralPrefix b)) →
      ∀ acc, ∃ roots, l.foldlM (childRootStep (w := w) H) acc = .ok roots from
    this _ (fun _ h => h) _
  intro l hl
  induction l with
  | nil => exact fun acc => ⟨acc, rfl⟩
  | cons kv rest ih =>
    intro acc
    obtain ⟨acc₁, h₁⟩ := childRootStep_ok hwf (hl kv (List.mem_cons_self _ _)) acc
    rw [List.foldlM_cons, h₁, Outcome.ok_bind]
    exact ih (fun kv' h => hl kv' (List.mem_cons_of_mem _ h)) acc₁

theorem digestStep_of_root {root : Bytes} (hr : storage.root parent b = .ok (some root))
    {roots : BTreeMap Bytes Bytes} (hs : scanChildRoots H (storage.trie root) b = .ok roots)
    (acc : DigestMap w × BTreeMap (ChildIndex w) (DigestMap w)) :
    digestStep H storage parent block acc b =
      .ok (scanKeys (storage.trie root) block b acc.1, foldChildTries storage block b acc.2 roots) :=
  digestStep_eq_ok.mpr ⟨root, roots, hr, hs, rfl⟩

theorem digestStep_err (h : ∀ root, storage.root parent b ≠ .ok (some root))
    (acc : DigestMap w × BTreeMap (ChildIndex w) (DigestMap w)) :
    ∃ e, digestStep H storage parent block acc b = .err e := by
  unfold digestStep
  rcases hr : storage.root parent b with e | _ | root
  · exact ⟨e, rfl⟩
  · exact ⟨_, rfl⟩
  · exact absurd hr (h root)

/-- The run lemma of the fold over strictly ascending blocks that all have a root with
well-formed `ChildIndex` values: it succeeds, and after the blocks `pre ++ blocks` the
top map records their tries and the child maps the child tries they point to. -/
theorem foldlM_digestStep_records (pre blocks : List (BlockNumber w))
    (acc : DigestMap w × BTreeMap (ChildIndex w) (DigestMap w))
    (hasc : (pre ++ blocks).Pairwise (· < ·))
    (hroots : ∀ b ∈ blocks, ∃ root, storage.root parent b = .ok (some root))
    (hwf : ∀ b ∈ blocks, ∀ root, storage.root parent b = .ok (some root) →
      ChildRootsWellFormed H (storage.trie root) b)
    (hacc : acc.1.Records block (digestValue (topTries storage parent pre)) ∧
      ChildRecords block acc.2 (childTries H storage parent pre)) :
    ∃ acc', blocks.foldlM (digestStep H storage parent block) acc = .ok acc' ∧
      acc'.1.Records block (digestValue (topTries storage parent (pre ++ blocks))) ∧
      ChildRecords block acc'.2 (childTries H storage parent (pre ++ blocks)) := by
  induction blocks generalizing pre acc with
  | nil => exact ⟨acc, rfl, by simpa using hacc⟩
  | cons b rest ih =>
    obtain ⟨root, hr⟩ := hroots b (List.mem_cons_self _ _)
    obtain ⟨roots, hs⟩ := scanChildRoots_ok (hwf b (List.mem_cons_self _ _) root hr)
    have hlt : ∀ b' ∈ pre, b' ≠ b := fun b' hb' =>
      ne_of_lt ((List.pairwise_append.mp hasc).2.2 b' hb' b (List.mem_cons_self _ _))
    have htop := hacc.1.scanKeys (fun bt hbt =>
      hlt _ ((map_fst_topTries_sublist pre).subset (List.mem_map_of_mem _ hbt))) (storage.trie root)
    have hchild : ChildRecords block (foldChildTries storage block b acc.2 roots) _ :=
      hacc.2.foldChildTries (fun sk bt hbt =>
        hlt _ ((map_fst_childTries_sublist pre sk).subset (List.mem_map_of_mem _ hbt))) roots
    rw [← topTries_append_of_root hr] at htop
    rw [List.foldlM_cons, digestStep_of_root hr hs, Outcome.ok_bind]
    have h := ih (pre ++ [b]) (scanKeys (storage.trie root) block b acc.1,
      foldChildTries storage block b acc.2 roots) (by simpa using hasc) (fun b' h => hroots b' (List.mem_cons_of_mem _ h))
      (fun b' h => hwf b' (List.mem_cons_of_mem _ h))
      ⟨htop, hchild.congr fun sk => (childTries_append_of_root hr hs sk).symm⟩
    simpa using h

theorem foldlM_digestStep_err (blocks : List (BlockNumber w))
    (acc : DigestMap w × BTreeMap (ChildIndex w) (DigestMap w))
    (hwf : ∀ b ∈ blocks, ∀ root, storage.root parent b = .ok (some root) →
      ChildRootsWellFormed H (storage.trie root) b)
    (hbad : ∃ b ∈ blocks, ∀ root, storage.root parent b ≠ .ok (some root)) :
    ∃ e, blocks.foldlM (digestStep H storage parent block) acc = .err e := by
  induction blocks generalizing acc with
  | nil =>
    obtain ⟨b, hb, -⟩ := hbad
    cases hb
  | cons b rest ih =>
    rw [List.foldlM_cons]
    by_cases hr : ∃ root, storage.root parent b = .ok (some root)
    case pos =>
      obtain ⟨root, hr⟩ := hr
      obtain ⟨roots, hs⟩ := scanChildRoots_ok (hwf b (List.mem_cons_self _ _) root hr)
      rw [digestStep_of_root hr hs, Outcome.ok_bind]
      refine ih _ (fun b' hb' => hwf b' (List.mem_cons_of_mem _ hb')) ?_
      obtain ⟨b', hb', hbad'⟩ := hbad
      rcases List.mem_cons.mp hb' with rfl | hb'
      · exact absurd hr (hbad' root)
      · exact ⟨b', hb', hbad'⟩
    case neg =>
      obtain ⟨e, he⟩ : ∃ e, digestStep H storage parent block acc b = .err e :=
        digestStep_err (not_exists.mp hr) acc
      rw [he]
      exact ⟨e, rfl⟩

end Run

/-- `prepare_digest_input` over strictly ascending covered blocks whose `ChildIndex`
values are roots of the hasher's length: when every covered block has a root it
returns the top stream of the covered tries and one stream for every child found,
over the child tries found; when one has none, it returns an `Err`. -/
theorem prepareDigestInput_records (H : Hasher) (sched : DigestSchedule w) (parent : AnchorBlockId w)
    (config : ConfigurationRange w) (block : BlockNumber w) (storage : Storage w)
    (hasc : (digestBlocks sched config block).Pairwise (· < ·))
    (hwf : ∀ b ∈ digestBlocks sched config block, ∀ root, storage.root parent b = .ok (some root) →
      ChildRootsWellFormed H (storage.trie root) b) :
    ((∀ b ∈ digestBlocks sched config block, ∃ root, storage.root parent b = .ok (some root)) →
      ∃ top children, prepareDigestInput H sched parent config block storage = .ok (top, children) ∧
        DigestStream block (topTries storage parent (digestBlocks sched config block)) top ∧
        (∀ c, c ∈ children.keys ↔
          c.block = block ∧ FoundByDigest H storage parent (digestBlocks sched config block) c.storageKey) ∧
        ∀ sk s, children.get? ⟨block, sk⟩ = some s →
          DigestStream block (childTries H storage parent (digestBlocks sched config block) sk) s) ∧
    ((∃ b ∈ digestBlocks sched config block, ∀ root, storage.root parent b ≠ .ok (some root)) →
      ∃ e, prepareDigestInput H sched parent config block storage = .err e) := by
  refine ⟨fun hroots => ?_, fun hbad => ?_⟩
  · obtain ⟨acc, hacc, htop, hchild⟩ := foldlM_digestStep_records [] _ (BTreeMap.empty, BTreeMap.empty)
      hasc hroots hwf ⟨DigestMap.records_empty, childRecords_empty⟩
    have h : prepareDigestInput H sched parent config block storage =
        .ok (digestPairs acc.1, acc.2.map digestPairs) :=
      prepareDigestInput_eq_ok.mpr ⟨acc, hacc, rfl⟩
    refine ⟨_, _, h, htop.digestStream (hasc.sublist (map_fst_topTries_sublist _)),
      prepareDigestInput_children_keys h, fun sk s hs => ?_⟩
    rw [BTreeMap.get?_map, Option.map_eq_some'] at hs
    obtain ⟨m, hm, rfl⟩ := hs
    have hrec := (hchild sk).2
    rw [hm, Option.getD_some] at hrec
    exact hrec.digestStream (hasc.sublist (map_fst_childTries_sublist _ sk))
  · obtain ⟨e, he⟩ : ∃ e, (digestBlocks sched config block).foldlM (digestStep H storage parent block)
        (BTreeMap.empty, BTreeMap.empty) = .err e := foldlM_digestStep_err _ _ hwf hbad
    exact ⟨e, by rw [prepareDigestInput, Outcome.bind_eq, ← digestBlocks, he, Outcome.err_bind]⟩

theorem childRootsWellFormed_childDigestStorage :
    ChildRootsWellFormed zeroHasher (childDigestStorage.trie [1]) (0 : BlockNumber 4) := by
  intro kv hkv sk rest value rest' _ hv
  simp only [childDigestStorage, if_true, List.mem_singleton] at hkv
  subst hkv
  have hd : decodeBytes (128 :: List.replicate 32 0) = .ok (List.replicate 32 0, []) := rfl
  rw [hd] at hv
  cases hv
  rfl

theorem prepareDigestInput_records_child_digest :
    (digestBlocks blockZeroDigest ⟨⟨4, 1⟩, 0, none⟩ 1).Pairwise (· < ·) ∧
    (∀ b ∈ digestBlocks blockZeroDigest ⟨⟨4, 1⟩, 0, none⟩ 1, ∀ root,
      childDigestStorage.root ⟨[], 0⟩ b = .ok (some root) →
        ChildRootsWellFormed zeroHasher (childDigestStorage.trie root) b) ∧
    ((∀ b ∈ digestBlocks blockZeroDigest ⟨⟨4, 1⟩, 0, none⟩ 1,
        ∃ root, childDigestStorage.root ⟨[], 0⟩ b = .ok (some root)) →
      ∃ top children, prepareDigestInput zeroHasher blockZeroDigest ⟨[], 0⟩ ⟨⟨4, 1⟩, 0, none⟩ 1
          childDigestStorage = .ok (top, children) ∧
        DigestStream 1 (topTries childDigestStorage ⟨[], 0⟩
          (digestBlocks blockZeroDigest ⟨⟨4, 1⟩, 0, none⟩ 1)) top ∧
        (∀ c, c ∈ children.keys ↔ c.block = 1 ∧ FoundByDigest zeroHasher childDigestStorage ⟨[], 0⟩
          (digestBlocks blockZeroDigest ⟨⟨4, 1⟩, 0, none⟩ 1) c.storageKey) ∧
        ∀ sk s, children.get? ⟨1, sk⟩ = some s →
          DigestStream 1 (childTries zeroHasher childDigestStorage ⟨[], 0⟩
            (digestBlocks blockZeroDigest ⟨⟨4, 1⟩, 0, none⟩ 1) sk) s) ∧
    ((∃ b ∈ digestBlocks blockZeroDigest ⟨⟨4, 1⟩, 0, none⟩ 1,
        ∀ root, childDigestStorage.root ⟨[], 0⟩ b ≠ .ok (some root)) →
      ∃ e, prepareDigestInput zeroHasher blockZeroDigest ⟨[], 0⟩ ⟨⟨4, 1⟩, 0, none⟩ 1
        childDigestStorage = .err e) :=
  have hasc : (digestBlocks blockZeroDigest ⟨⟨4, 1⟩, 0, none⟩ (1 : BlockNumber 4)).Pairwise (· < ·) :=
    List.pairwise_singleton _ _
  have hwf : ∀ b ∈ digestBlocks blockZeroDigest ⟨⟨4, 1⟩, 0, none⟩ (1 : BlockNumber 4), ∀ root,
      childDigestStorage.root ⟨[], 0⟩ b = .ok (some root) →
        ChildRootsWellFormed zeroHasher (childDigestStorage.trie root) b := fun b hb root hr => by
    obtain rfl : b = 0 := List.mem_singleton.mp hb
    obtain rfl : root = [1] := by simpa [childDigestStorage] using hr.symm
    exact childRootsWellFormed_childDigestStorage
  ⟨hasc, hwf, prepareDigestInput_records zeroHasher blockZeroDigest ⟨[], 0⟩ ⟨⟨4, 1⟩, 0, none⟩ 1
    childDigestStorage hasc hwf⟩

def shortChildRootStorage : Storage 4 where
  buildAnchor _ := .ok ⟨[], 0⟩
  root _ _ := .ok (some [1])
  trie _ := [([3, 0, 0, 0, 0, 4, 9], [4, 5])]

theorem prepareDigestInput_short_child_root_panics :
    (∀ b ∈ digestBlocks blockZeroDigest ⟨⟨4, 1⟩, 0, none⟩ (1 : BlockNumber 4),
      ∃ root, shortChildRootStorage.root ⟨[], 0⟩ b = .ok (some root)) ∧
    prepareDigestInput zeroHasher blockZeroDigest ⟨[], 0⟩ ⟨⟨4, 1⟩, 0, none⟩ 1 shortChildRootStorage =
      .panicked :=
  ⟨fun _ _ => ⟨[1], rfl⟩, rfl⟩

end Substrate.ChangesTrie
