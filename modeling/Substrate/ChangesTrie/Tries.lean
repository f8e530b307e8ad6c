import Substrate.ChangesTrie.Children
import Substrate.ChangesTrie.Materialize

/-! What `build_changes_trie` writes, and what a later digest reads back. The loops
of the builder insert the encoded records of every child stream into a fresh trie,
then the top stream and one `ChildIndex` record for each child trie that got a pair.
Every list it inserts has distinct keys, so no insert overwrites an earlier one, and
the `ChildIndex` scan of `prepare_digest_input` reads back each recorded child root
without a panic. -/
namespace Substrate.ChangesTrie

open Codec

variable {w : Nat}

theorem forall₂_of_mapM_eq_some {α β : Type} {f : α → Option β} :
    ∀ {l : List α} {bs : List β}, l.mapM f = some bs → List.Forall₂ (fun a b => f a = some b) l bs
  | [], bs, h => by
    rw [List.mapM_nil] at h
    cases h
    exact .nil
  | a :: l, bs, h => by
    rw [List.mapM_cons] at h
    cases hfa : f a with
    | none => rw [hfa] at h; cases h
    | some b =>
      cases hl : l.mapM f with
      | none => rw [hfa, hl] at h; cases h
      | some bs' =>
        rw [hfa, hl] at h
        cases h
        exact .cons hfa (forall₂_of_mapM_eq_some hl)

theorem exists_mem_zip_of_forall₂ {α β : Type} {R : α → β → Prop} :
    ∀ {l₁ : List α} {l₂ : List β}, List.Forall₂ R l₁ l₂ →
      (∀ a ∈ l₁, ∃ b, (a, b) ∈ l₁.zip l₂ ∧ R a b) ∧ ∀ b ∈ l₂, ∃ a, (a, b) ∈ l₁.zip l₂ ∧ R a b
  | _, _, .nil => ⟨fun _ h => absurd h (List.not_mem_nil _), fun _ h => absurd h (List.not_mem_nil _)⟩
  | _, _, .cons hab hs => by
    obtain ⟨ihl, ihr⟩ := exists_mem_zip_of_forall₂ hs
    refine ⟨fun a ha => ?_, fun b hb => ?_⟩
    · rcases List.mem_cons.mp ha with rfl | ha
      · exact ⟨_, List.mem_cons_self _ _, hab⟩
      · obtain ⟨b, hz, hr⟩ := ihl a ha
        exact ⟨b, List.mem_cons_of_mem _ hz, hr⟩
    · rcases List.mem_cons.mp hb with rfl | hb
      · exact ⟨_, List.mem_cons_self _ _, hab⟩
      · obtain ⟨a, hz, hr⟩ := ihr b hb
        exact ⟨a, List.mem_cons_of_mem _ hz, hr⟩

theorem forall₂_of_encodePairs {pairs : List (InputPair w)} {kvs : List (Bytes × Bytes)}
    (h : encodePairs pairs = .ok kvs) : List.Forall₂ (fun p kv => p.into = some kv) pairs kvs := by
  unfold encodePairs at h
  split at h
  · cases h
    exact forall₂_of_mapM_eq_some ‹_›
  · cases h

theorem InputPair.encode_key_of_into {p : InputPair w} {kv : Bytes × Bytes} (h : p.into = some kv) :
    p.key.encode = some kv.1 := by
  cases p <;> simp only [InputPair.into, Option.bind_eq_some, Option.map_eq_some'] at h <;>
    obtain ⟨kb, hkb, v, -, rfl⟩ := h <;> exact hkb

theorem into_childIndex {k : ChildIndex w} {r : Bytes} {kv : Bytes × Bytes} :
    (InputPair.childIndex k r).into = some kv ↔
      ∃ e, k.encode = some e ∧ ∃ ev, encodeBytes r = some ev ∧ (e, ev) = kv := by
  simp only [InputPair.into, Option.bind_eq_some, Option.map_eq_some']

theorem childIndex_eq_of_into {k k' : ChildIndex w} {r r' : Bytes} {kv : Bytes × Bytes}
    (h : (InputPair.childIndex k r).into = some kv) (h' : (InputPair.childIndex k' r').into = some kv) :
    k' = k ∧ r' = r := by
  obtain ⟨e, he, ev, hev, rfl⟩ := into_childIndex.mp h
  obtain ⟨e', he', ev', hev', hkv⟩ := into_childIndex.mp h'
  cases hkv
  have hk : InputKey.childIndex k' = .childIndex k := InputKey.encode_injective (k := .childIndex k) he he'
  have hr := decodeBytes_of_encodeBytes hev []
  rw [decodeBytes_of_encodeBytes hev' []] at hr
  cases hk
  cases hr
  exact ⟨rfl, rfl⟩

theorem nodup_fst_of_forall₂_into {pairs : List (InputPair w)} {kvs : List (Bytes × Bytes)}
    (h : List.Forall₂ (fun p kv => p.into = some kv) pairs kvs) (hk : (pairs.map InputPair.key).Nodup) :
    (kvs.map Prod.fst).Nodup := by
  induction h with
  | nil => exact List.nodup_nil
  | @cons p kv ps kvs' hp hs ih =>
    rw [List.map_cons, List.nodup_cons] at hk ⊢
    refine ⟨fun hmem => hk.1 ?_, ih hk.2⟩
    obtain ⟨kv', hkv', he⟩ := List.mem_map.mp hmem
    obtain ⟨p', hz, hr⟩ := (exists_mem_zip_of_forall₂ hs).2 kv' hkv'
    have hkey : p.key = p'.key :=
      InputKey.encode_injective (InputPair.encode_key_of_into hr)
        (he ▸ InputPair.encode_key_of_into hp)
    exact hkey ▸ List.mem_map_of_mem _ (List.of_mem_zip hz).1

/-- The `ChildIndex` records of the child tries: one for each child whose trie got a
pair, with the root of that trie. -/
def childRootRecords (H : Hasher) (children : List (ChildIndex w × List (InputPair w)))
    (kvss : List (List (Bytes × Bytes))) : List (InputPair w) :=
  (children.zip kvss).filterMap fun p =>
    if p.2.isEmpty then none else some (.childIndex p.1.1 (H.trieRoot (trieOf p.2).toList))

def trieEntry (H : Hasher) (kvs : List (Bytes × Bytes)) : Bytes × BTreeMap Bytes Bytes :=
  (H.trieRoot (trieOf kvs).toList, trieOf kvs)

theorem childRootRecords_cons (H : Hasher) (c : ChildIndex w × List (InputPair w))
    (children : List (ChildIndex w × List (InputPair w))) (kvs : List (Bytes × Bytes))
    (kvss : List (List (Bytes × Bytes))) :
    childRootRecords H (c :: children) (kvs :: kvss) =
      (if kvs.isEmpty then [] else [.childIndex c.1 (H.trieRoot (trieOf kvs).toList)]) ++
        childRootRecords H children kvss := by
  unfold childRootRecords
  rw [List.zip_cons_cons, List.filterMap_cons]
  split <;> simp_all

/-- The run lemma of the child-trie loop: it encodes every child stream, adds each
trie to the `MemoryDB` and the root of each non-empty one to the top records. -/
theorem foldlM_buildChildTrie (H : Hasher) :
    ∀ (children : List (ChildIndex w × List (InputPair w))) (acc : MemoryDB × List (InputPair w)),
      children.foldlM (buildChildTrie H) acc =
        (children.mapM fun c => encodePairs c.2) >>= fun kvss =>
          .ok (acc.1 ++ kvss.map (trieEntry H), acc.2 ++ childRootRecords H children kvss)
  | [], acc => by
    rw [List.foldlM_nil, List.mapM_nil]
    simp [childRootRecords]
  | c :: children, acc => by
    rw [List.foldlM_cons, List.mapM_cons, buildChildTrie]
    cases encodePairs c.2 with
    | ok kvs =>
      simp only [Outcome.bind_eq, Outcome.ok_bind, foldlM_buildChildTrie H children, bind_assoc,
        Outcome.pure_eq]
      cases children.mapM fun c => encodePairs c.2 with
      | ok kvss =>
        simp only [Outcome.ok_bind, List.map_cons, childRootRecords_cons, List.append_assoc,
          List.singleton_append, trieEntry]
        by_cases hk : kvs.isEmpty <;> simp [hk]
      | err e => rfl
      | panicked => rfl
    | err e => rfl
    | panicked => rfl

/-- `build_changes_trie` after `prepare_input`: the child tries, then the top trie over
the top stream and the records of the child roots. -/
theorem materialize_eq (H : Hasher) (top : List (InputPair w))
    (children : List (ChildIndex w × List (InputPair w))) :
    materialize H (top, children) =
      (children.mapM fun c => encodePairs c.2) >>= fun kvss =>
        encodePairs (top ++ childRootRecords H children kvss) >>= fun kvs =>
          .ok (kvss.map (trieEntry H) ++ [trieEntry H kvs], (trieEntry H kvs).1) := by
  simp only [materialize, foldlM_buildChildTrie, Outcome.bind_eq, bind_assoc, Outcome.ok_bind,
    List.nil_append, trieEntry]

theorem mem_childRootRecords {H : Hasher} {children : List (ChildIndex w × List (InputPair w))}
    {kvss : List (List (Bytes × Bytes))} {p : InputPair w} :
    p ∈ childRootRecords H children kvss ↔ ∃ c kvs, (c, kvs) ∈ children.zip kvss ∧ kvs ≠ [] ∧
      p = .childIndex c.1 (H.trieRoot (trieOf kvs).toList) := by
  unfold childRootRecords
  rw [List.mem_filterMap]
  constructor
  · rintro ⟨⟨c, kvs⟩, hz, hp⟩
    dsimp only at hp
    split at hp
    · cases hp
    · next hne =>
      cases hp
      exact ⟨c, kvs, hz, fun h => hne (h ▸ rfl), rfl⟩
  · rintro ⟨c, kvs, hz, hne, rfl⟩
    refine ⟨(c, kvs), hz, ?_⟩
    dsimp only
    rw [if_neg fun h => hne (List.isEmpty_iff.mp h)]

theorem isEmpty_of_encodePairs {s : List (InputPair w)} {kvs : List (Bytes × Bytes)}
    (h : encodePairs s = .ok kvs) : kvs.isEmpty = s.isEmpty := by
  cases forall₂_of_encodePairs h <;> rfl

theorem childRootRecords_keys {H : Hasher} {children : List (ChildIndex w × List (InputPair w))}
    {kvss : List (List (Bytes × Bytes))}
    (h : List.Forall₂ (fun c kvs => encodePairs c.2 = .ok kvs) children kvss) :
    (childRootRecords H children kvss).map InputPair.key =
      (children.filter fun c => !c.2.isEmpty).map fun c => .childIndex c.1 := by
  induction h with
  | nil => rfl
  | @cons c kvs children kvss hc _ ih =>
    rw [childRootRecords_cons, List.map_append, ih, List.filter_cons, isEmpty_of_encodePairs hc]
    cases c.2.isEmpty <;> rfl

section Build

variable {H : Hasher} {sched : DigestSchedule w} {backend : Backend} {storage : Storage w}
  {config : ConfigurationRange w} {o : OverlayedChanges} {parent : AnchorBlockId w}
  {top : List (InputPair w)} {children : List (ChildIndex w × List (InputPair w))}

/-- The streams of `prepare_input`: the top stream is the top extrinsic records followed
by the top digest records, and each child is of the block and has a stream of its
extrinsic records followed by its digest records. -/
theorem prepareInput_streams (hp : prepareInput H sched backend storage config o parent = .ok (top, children)) :
    ∃ ext digest, prepareExtrinsicsInputInner backend (parent.number + 1) o none = .ok ext ∧
      (∃ digestChildren, prepareDigestInput H sched parent config (parent.number + 1) storage =
        .ok (digest, digestChildren) ∧ ∀ c s, (c, s) ∈ children → c.block = parent.number + 1 ∧
          ∃ ext, prepareExtrinsicsInputInner backend (parent.number + 1) o (some c.storageKey) =
            .ok ext ∧ s = ext ++ (digestChildren.get? c).getD []) ∧
      top = ext ++ digest ∧ (children.map Prod.fst).Nodup := by
  obtain ⟨⟨et, ec⟩, ⟨dt, dc⟩, he, hd, rfl, rfl⟩ := prepareInput_eq_ok.mp hp
  exact ⟨et, dt, (prepareExtrinsicsInput_eq_ok he).1,
    ⟨dc, hd, fun c s hcs => stream_of_mem_mergeChildren he hd hcs⟩, rfl, mergeChildren_nodup⟩

theorem childStream_nodup (hp : prepareInput H sched backend storage config o parent = .ok (top, children))
    {c : ChildIndex w} {s : List (InputPair w)} (hcs : (c, s) ∈ children) :
    (s.map InputPair.key).Nodup := by
  obtain ⟨_, _, -, ⟨dc, hd, hstream⟩, -, -⟩ := prepareInput_streams hp
  obtain ⟨-, ext, hext, rfl⟩ := hstream c s hcs
  have hx := prepareExtrinsicsInputInner_keyedBy hext
  have hdig : KeyedBy (fun k => .digestIndex ⟨parent.number + 1, k⟩) ((dc.get? c).getD []) := by
    cases hv : dc.get? c with
    | none => exact ⟨[], List.nodup_nil, rfl⟩
    | some v => exact (prepareDigestInput_keyedBy hd).2 c v hv
  refine nodup_keys_append (hx.nodup fun _ _ h => by cases h; rfl)
    (hdig.nodup fun _ _ h => by cases h; rfl) fun p hp q hq hpq => ?_
  obtain ⟨k, hk⟩ := hx.exists_key hp
  obtain ⟨k', hk'⟩ := hdig.exists_key hq
  rw [hk, hk'] at hpq
  cases hpq

theorem key_of_mem_top (hp : prepareInput H sched backend storage config o parent = .ok (top, children))
    {p : InputPair w} (h : p ∈ top) (k : ChildIndex w) : p.key ≠ .childIndex k := by
  obtain ⟨ext, digest, hext, ⟨dc, hd, -⟩, rfl, -⟩ := prepareInput_streams hp
  rcases List.mem_append.mp h with h | h
  · obtain ⟨k', hk⟩ := (prepareExtrinsicsInputInner_keyedBy hext).exists_key h
    rw [hk]; exact InputKey.noConfusion
  · obtain ⟨k', hk⟩ := (prepareDigestInput_keyedBy hd).1.exists_key h
    rw [hk]; exact InputKey.noConfusion

/-- The top trie's records have distinct keys: the extrinsic and digest records of the
top stream, and one child root record per child. -/
theorem topRecords_nodup (hp : prepareInput H sched backend storage config o parent = .ok (top, children))
    {kvss : List (List (Bytes × Bytes))}
    (hc : List.Forall₂ (fun c kvs => encodePairs c.2 = .ok kvs) children kvss) :
    ((top ++ childRootRecords H children kvss).map InputPair.key).Nodup := by
  have htop : ∀ p ∈ top, ∀ k, p.key ≠ .childIndex k := fun _ h => key_of_mem_top hp h
  obtain ⟨ext, digest, hext, ⟨dc, hd, hstream⟩, rfl, hnodup⟩ := prepareInput_streams hp
  have hx := prepareExtrinsicsInputInner_keyedBy hext
  have hdig := (prepareDigestInput_keyedBy hd).1
  have hroots : ((childRootRecords H children kvss).map InputPair.key).Nodup := by
    have h₁ := (hnodup.sublist ((List.filter_sublist (p := fun c : ChildIndex w × List (InputPair w) =>
      !c.2.isEmpty) children).map Prod.fst)).map (f := InputKey.childIndex) fun _ _ h => by cases h; rfl
    rw [List.map_map] at h₁
    rw [childRootRecords_keys hc]
    exact h₁
  refine nodup_keys_append (nodup_keys_append (hx.nodup fun _ _ h => by cases h; rfl)
    (hdig.nodup fun _ _ h => by cases h; rfl) ?_) hroots ?_
  · intro p hp q hq hpq
    obtain ⟨k, hk⟩ := hx.exists_key hp
    obtain ⟨k', hk'⟩ := hdig.exists_key hq
    rw [hk, hk'] at hpq
    cases hpq
  · intro p hp q hq hpq
    obtain ⟨c, kvs, -, -, rfl⟩ := mem_childRootRecords.mp hq
    exact htop p hp _ hpq

/-- With a storage, a configuration and an anchor for the parent, `build_changes_trie`
prepares its input over the range that starts at block zero and materializes it. -/
theorem buildChangesTrie_of_prepareInput {config₀ : Configuration} {parentHash : Bytes}
    {input : List (InputPair w) × List (ChildIndex w × List (InputPair w))}
    (hconfig : o.changesTrieConfig = some config₀) (hanchor : storage.buildAnchor parentHash = .ok parent)
    (hp : prepareInput H sched backend storage ⟨config₀, 0, none⟩ o parent = .ok input) :
    buildChangesTrie H sched backend (some storage) o parentHash =
      materialize H input >>= fun r => .ok (some r) := by
  simp only [buildChangesTrie, hconfig, hanchor, hp, Outcome.expect_ok, Outcome.bind_eq, Outcome.ok_bind]

/-- `build_changes_trie` builds tries exactly when a configuration is set, the parent
hash has an anchor, `prepare_input` succeeds over the range from block zero, and the
tries of its streams are built without a panic. -/
theorem buildChangesTrie_eq_ok_some {parentHash : Bytes} {r : MemoryDB × Bytes} :
    buildChangesTrie H sched backend (some storage) o parentHash = .ok (some r) ↔
      ∃ config₀ parent input, o.changesTrieConfig = some config₀ ∧
        storage.buildAnchor parentHash = .ok parent ∧
        prepareInput H sched backend storage ⟨config₀, 0, none⟩ o parent = .ok input ∧
        materialize H input = .ok r := by
  refine ⟨fun h => ?_, fun ⟨_, _, _, hc, ha, hp, hm⟩ => by
    rw [buildChangesTrie_of_prepareInput hc ha hp, hm, Outcome.ok_bind]⟩
  unfold buildChangesTrie at h
  rcases hc : o.changesTrieConfig with _ | config₀ <;> rw [hc] at h
  · cases h
  dsimp only at h
  rcases ha : storage.buildAnchor parentHash with _ | parent <;> rw [ha] at h
  · cases h
  dsimp only at h
  rcases hp : prepareInput H sched backend storage ⟨config₀, 0, none⟩ o parent with input | _ | _ <;>
    rw [hp] at h
  · simp only [Outcome.expect_ok, Outcome.bind_eq, Outcome.ok_bind] at h
    obtain ⟨r', hm, hr⟩ := Outcome.bind_eq_ok.mp h
    cases hr
    exact ⟨config₀, parent, input, rfl, rfl, hp, hm⟩
  all_goals cases h

/-- What `build_changes_trie` inserts: the child tries over the encoded child streams,
then the top trie over the top extrinsic and digest records and one `ChildIndex`
record, of the block, for each child whose stream is non-empty, with the root of that
child's trie; every list of pairs it inserts has distinct keys. -/
theorem buildChangesTrie_inserted_pairs {config₀ : Configuration} {parentHash : Bytes}
    (hconfig : o.changesTrieConfig = some config₀) (hanchor : storage.buildAnchor parentHash = .ok parent)
    (hp : prepareInput H sched backend storage ⟨config₀, 0, none⟩ o parent = .ok (top, children)) :
    buildChangesTrie H sched backend (some storage) o parentHash =
      ((children.mapM fun c => encodePairs c.2) >>= fun kvss =>
        encodePairs (top ++ childRootRecords H children kvss) >>= fun kvs =>
          .ok (some (kvss.map (trieEntry H) ++ [trieEntry H kvs], (trieEntry H kvs).1))) ∧
    (∃ ext digest, prepareExtrinsicsInputInner backend (parent.number + 1) o none = .ok ext ∧
      (∃ digestChildren, prepareDigestInput H sched parent ⟨config₀, 0, none⟩ (parent.number + 1)
        storage = .ok (digest, digestChildren)) ∧ top = ext ++ digest) ∧
    (∀ c ∈ children, c.1.block = parent.number + 1) ∧
    ∀ kvss, children.mapM (fun c => encodePairs c.2) = .ok kvss →
      (childRootRecords H children kvss).map InputPair.key =
        (children.filter fun c => !c.2.isEmpty).map (fun c => .childIndex c.1) ∧
      (∀ kvs ∈ kvss, (kvs.map Prod.fst).Nodup) ∧
      ∀ kvs, encodePairs (top ++ childRootRecords H children kvss) = .ok kvs →
        (kvs.map Prod.fst).Nodup := by
  obtain ⟨ext, digest, hext, ⟨dc, hd, hstream⟩, htop, -⟩ := prepareInput_streams hp
  refine ⟨?_, ⟨ext, digest, hext, ⟨dc, hd⟩, htop⟩, fun c hc => (hstream c.1 c.2 hc).1, fun kvss hkvss => ?_⟩
  · rw [buildChangesTrie_of_prepareInput hconfig hanchor hp, materialize_eq]
    simp only [bind_assoc, Outcome.ok_bind]
  have hc := Outcome.mapM_eq_ok.mp hkvss
  refine ⟨childRootRecords_keys hc, fun kvs hkvs => ?_, fun kvs hkvs =>
    nodup_fst_of_forall₂_into (forall₂_of_encodePairs hkvs) (topRecords_nodup hp hc)⟩
  obtain ⟨c, hz, hkvs⟩ := (exists_mem_zip_of_forall₂ hc).2 kvs hkvs
  exact nodup_fst_of_forall₂_into (forall₂_of_encodePairs hkvs)
    (childStream_nodup hp (List.of_mem_zip hz).1)

end Build

theorem get?_foldl_insert {kvs : List (Bytes × Bytes)} (h : (kvs.map Prod.fst).Nodup)
    (m : BTreeMap Bytes Bytes) (k : Bytes) :
    (kvs.foldl (fun t kv => t.insert kv.1 kv.2) m).get? k =
      if k ∈ kvs.map Prod.fst then lookupKey k kvs else m.get? k := by
  induction kvs generalizing m with
  | nil => simp
  | cons kv rest ih =>
    obtain ⟨k', v⟩ := kv
    rw [List.map_cons, List.nodup_cons] at h
    rw [List.foldl_cons, ih h.2, BTreeMap.get?_insert, lookupKey_cons]
    by_cases hk : k' = k
    · subst hk
      simp [h.1]
    · rw [if_neg hk, if_neg hk]
      by_cases hm : k ∈ rest.map Prod.fst
      · rw [if_pos hm, if_pos (show k ∈ ((k', v) :: rest).map Prod.fst from
          List.mem_cons_of_mem _ hm)]
      · rw [if_neg hm, if_neg (by simp [hm, Ne.symm hk])]

theorem mem_toList_trieOf {kvs : List (Bytes × Bytes)} (h : (kvs.map Prod.fst).Nodup)
    {kv : Bytes × Bytes} : kv ∈ (trieOf kvs).toList ↔ kv ∈ kvs := by
  rw [← BTreeMap.get?_eq_some_iff, trieOf, get?_foldl_insert h, ← lookupKey_of_mem_iff h]
  split_ifs with hk
  · rfl
  · rw [BTreeMap.get?_empty, lookupKey_eq_none.mpr hk]

theorem fst_eq_of_into_childIndex {k : ChildIndex w} {r r' : Bytes} {kv kv' : Bytes × Bytes}
    (h : (InputPair.childIndex k r).into = some kv) (h' : (InputPair.childIndex k r').into = some kv') :
    kv.1 = kv'.1 := by
  obtain ⟨e, he, -, -, rfl⟩ := into_childIndex.mp h
  obtain ⟨e', he', -, -, rfl⟩ := into_childIndex.mp h'
  rw [he] at he'
  cases he'
  rfl

theorem childRootStep_of_into {H : Hasher} {roots : BTreeMap Bytes Bytes} {k : ChildIndex w}
    {r : Bytes} {kv : Bytes × Bytes} (h : (InputPair.childIndex k r).into = some kv)
    (hr : r.length = H.outLen) :
    childRootStep (w := w) H roots kv = .ok (roots.insert k.storageKey r) := by
  obtain ⟨e, he, ev, hev, rfl⟩ := into_childIndex.mp h
  have hk := InputKey.decode_encode (k := .childIndex k) he []
  have hv := decodeBytes_of_encodeBytes hev []
  rw [List.append_nil] at hk hv
  simp only [childRootStep, hk, hv, copyFromSlice, hr, if_true, Outcome.bind_eq, Outcome.ok_bind]

theorem childPrefix_of_into {p : InputPair w} {kv : Bytes × Bytes} (h : p.into = some kv)
    (b : BlockNumber w) :
    (ChildIndex.keyNeutralPrefix b).isPrefixOf kv.1 = true ↔ ∃ sk r, p = .childIndex ⟨b, sk⟩ r := by
  obtain ⟨ek, -, hcases⟩ := InputKey.encode_eq_some (InputPair.encode_key_of_into h)
  rw [List.isPrefixOf_iff_prefix, ChildIndex.keyNeutralPrefix]
  cases p with
  | extrinsicIndex k v =>
    rcases hcases with ⟨b', key, hk, he⟩ | ⟨_, _, hk, _⟩ | ⟨_, _, hk, _⟩ <;> cases hk
    rw [he, keyNeutralPrefixOf_prefix_iff]
    simp
  | digestIndex k v =>
    rcases hcases with ⟨_, _, hk, _⟩ | ⟨b', key, hk, he⟩ | ⟨_, _, hk, _⟩ <;> cases hk
    rw [he, keyNeutralPrefixOf_prefix_iff]
    simp
  | childIndex k r =>
    rcases hcases with ⟨_, _, hk, _⟩ | ⟨_, _, hk, _⟩ | ⟨b', key, hk, he⟩ <;> cases hk
    rw [he, keyNeutralPrefixOf_prefix_iff]
    simp [eq_comm]

/-- The run lemma of the `ChildIndex` scan over encoded `ChildIndex` records of one
block with distinct keys: it never panics and records each root under its key. -/
theorem foldlM_childRootStep {H : Hasher} {b : BlockNumber w} (F : List (Bytes × Bytes))
    (hF : (F.map Prod.fst).Nodup)
    (hrec : ∀ kv ∈ F, ∃ sk r, (InputPair.childIndex ⟨b, sk⟩ r).into = some kv ∧ r.length = H.outLen) :
    ∃ roots, F.foldlM (childRootStep (w := w) H) BTreeMap.empty = .ok roots ∧
      ∀ sk r, roots.get? sk = some r ↔ ∃ kv ∈ F, (InputPair.childIndex ⟨b, sk⟩ r).into = some kv := by
  induction F using List.reverseRecOn with
  | nil => exact ⟨BTreeMap.empty, rfl, by simp⟩
  | append_singleton F kv₀ ih =>
    rw [List.map_append, List.nodup_append] at hF
    obtain ⟨roots, hroots, hget⟩ :=
      ih hF.1 fun kv hkv => hrec kv (List.mem_append_left _ hkv)
    obtain ⟨sk₀, r₀, hinto₀, hlen₀⟩ := hrec kv₀ (List.mem_append_right _ (List.mem_singleton_self _))
    have hfresh : ∀ kv ∈ F, kv.1 ≠ kv₀.1 := fun kv hkv he =>
      hF.2.2 (List.mem_map_of_mem _ hkv) (by rw [he]; exact List.mem_singleton_self _)
    refine ⟨roots.insert sk₀ r₀, ?_, fun sk r => ?_⟩
    · rw [List.foldlM_append, hroots, Outcome.ok_bind, List.foldlM_cons, childRootStep_of_into hinto₀ hlen₀]
      rfl
    · simp only [BTreeMap.get?_insert, List.mem_append, List.mem_singleton, or_and_right, exists_or,
        exists_eq_left]
      by_cases hsk : sk₀ = sk
      · subst hsk
        rw [if_pos rfl]
        constructor
        · rintro ⟨⟩
          exact .inr hinto₀
        · rintro (⟨kv, hkv, h⟩ | h)
          · exact absurd (fst_eq_of_into_childIndex h hinto₀) (hfresh kv hkv)
          · rw [(childIndex_eq_of_into hinto₀ h).2]
      · rw [if_neg hsk, hget]
        refine ⟨.inl, fun h => h.resolve_right fun h' => hsk ?_⟩
        have := (childIndex_eq_of_into hinto₀ h').1
        cases this
        rfl

/-- What the `ChildIndex` scan of block `b` reads from a trie of encoded records with
distinct keys: exactly the `ChildIndex` records of block `b`, when their roots have the
hasher's length. -/
theorem scanChildRoots_trieOf {H : Hasher} {P : List (InputPair w)} {kvs : List (Bytes × Bytes)}
    (h : List.Forall₂ (fun p kv => p.into = some kv) P kvs) (hk : (P.map InputPair.key).Nodup)
    (b : BlockNumber w) (hlen : ∀ sk r, InputPair.childIndex ⟨b, sk⟩ r ∈ P → r.length = H.outLen) :
    ∃ roots, scanChildRoots H (trieOf kvs).toList b = .ok roots ∧
      ∀ sk r, roots.get? sk = some r ↔ InputPair.childIndex ⟨b, sk⟩ r ∈ P := by
  have hkvs := nodup_fst_of_forall₂_into h hk
  have hsource : ∀ kv ∈ withPrefix (trieOf kvs).toList (ChildIndex.keyNeutralPrefix b),
      ∃ p ∈ P, p.into = some kv ∧ ∃ sk r, p = .childIndex ⟨b, sk⟩ r := fun kv hkv => by
    rw [withPrefix, List.mem_filter, mem_toList_trieOf hkvs] at hkv
    obtain ⟨p, hz, hp⟩ := (exists_mem_zip_of_forall₂ h).2 kv hkv.1
    exact ⟨p, (List.of_mem_zip hz).1, hp, (childPrefix_of_into hp b).mp hkv.2⟩
  obtain ⟨roots, hroots, hget⟩ := foldlM_childRootStep
    (withPrefix (trieOf kvs).toList (ChildIndex.keyNeutralPrefix b))
    ((BTreeMap.keys_nodup _).sublist ((List.filter_sublist _).map _)) fun kv hkv => by
      obtain ⟨p, hp, hinto, sk, r, rfl⟩ := hsource kv hkv
      exact ⟨sk, r, hinto, hlen sk r hp⟩
  refine ⟨roots, hroots, fun sk r => (hget sk r).trans ⟨?_, fun hmem => ?_⟩⟩
  · rintro ⟨kv, hkv, hinto⟩
    obtain ⟨p, hp, hpinto, sk', r', rfl⟩ := hsource kv hkv
    obtain ⟨hk', rfl⟩ := childIndex_eq_of_into hinto hpinto
    cases hk'
    exact hp
  · obtain ⟨kv, hz, hinto⟩ := (exists_mem_zip_of_forall₂ h).1 _ hmem
    refine ⟨kv, ?_, hinto⟩
    rw [withPrefix, List.mem_filter, mem_toList_trieOf hkvs]
    exact ⟨(List.of_mem_zip hz).2, (childPrefix_of_into hinto b).mpr ⟨sk, r, rfl⟩⟩

section ReadBack

variable {H : Hasher} {sched : DigestSchedule w} {backend : Backend} {storage : Storage w}
  {config : ConfigurationRange w} {o : OverlayedChanges} {parent : AnchorBlockId w}
  {top : List (InputPair w)} {children : List (ChildIndex w × List (InputPair w))}

/-- The child roots that `build_changes_trie` records are read back by the `ChildIndex`
scan of a later digest over the top trie: the scan does not panic, and it maps the
storage key of each child with a non-empty stream, and no other key, to the root under
which that child's trie is in the `MemoryDB`. -/
theorem buildChangesTrie_childRoots_readBack
    (hp : prepareInput H sched backend storage config o parent = .ok (top, children))
    {mdb : MemoryDB} {root : Bytes} (hm : materialize H (top, children) = .ok (mdb, root)) :
    ∃ trie, (root, trie) ∈ mdb ∧
      ∃ roots, scanChildRoots H trie.toList (parent.number + 1) = .ok roots ∧
        ∀ sk r, roots.get? sk = some r ↔ ∃ s kvs, (⟨parent.number + 1, sk⟩, s) ∈ children ∧
          encodePairs s = .ok kvs ∧ kvs ≠ [] ∧ r = H.trieRoot (trieOf kvs).toList ∧
          (r, trieOf kvs) ∈ mdb := by
  rw [materialize_eq, Outcome.bind_eq_ok] at hm
  obtain ⟨kvss, hkvss, hm⟩ := hm
  obtain ⟨kvs, hkvs, hm⟩ := Outcome.bind_eq_ok.mp hm
  cases hm
  have hc := Outcome.mapM_eq_ok.mp hkvss
  have hrec : ∀ sk r, InputPair.childIndex ⟨parent.number + 1, sk⟩ r ∈
      top ++ childRootRecords H children kvss ↔
        InputPair.childIndex ⟨parent.number + 1, sk⟩ r ∈ childRootRecords H children kvss :=
    fun sk r => ⟨fun hmem => (List.mem_append.mp hmem).resolve_left fun htop =>
      key_of_mem_top hp htop _ rfl, List.mem_append_right _⟩
  obtain ⟨roots, hroots, hget⟩ := scanChildRoots_trieOf (forall₂_of_encodePairs hkvs)
    (topRecords_nodup hp hc) (parent.number + 1) fun sk r hmem => by
      obtain ⟨⟨c, s⟩, kvs', -, -, he⟩ := mem_childRootRecords.mp ((hrec sk r).mp hmem)
      cases he
      exact H.length_trieRoot _
  refine ⟨trieOf kvs, List.mem_append_right _ (List.mem_singleton_self _), roots, hroots,
    fun sk r => (hget sk r).trans ((hrec sk r).trans ?_)⟩
  rw [mem_childRootRecords]
  constructor
  · rintro ⟨⟨c, s⟩, kvs', hz, hne, he⟩
    cases he
    exact ⟨s, kvs', (List.of_mem_zip hz).1, List.forall₂_zip hc hz, hne, rfl,
      List.mem_append_left _ (List.mem_map_of_mem _ (List.of_mem_zip hz).2)⟩
  · rintro ⟨s, kvs', hcs, henc, hne, rfl, -⟩
    obtain ⟨kvs'', hz, henc'⟩ := (exists_mem_zip_of_forall₂ hc).1 _ hcs
    rw [henc] at henc'
    cases henc'
    exact ⟨_, kvs', hz, hne, rfl⟩

end ReadBack

def overlayAndDigestTries : MemoryDB :=
  [(List.replicate 32 0, trieOf [([1, 1, 0, 0, 0, 4, 7], [4, 0, 0, 0, 0])]),
    (List.replicate 32 0, trieOf [([2, 1, 0, 0, 0, 4, 3], [4, 0, 0, 0, 0])]),
    (List.replicate 32 0, trieOf [([3, 1, 0, 0, 0, 4, 5], 128 :: List.replicate 32 0),
      ([3, 1, 0, 0, 0, 4, 9], 128 :: List.replicate 32 0)])]

theorem buildChangesTrie_inserted_pairs_overlay_and_digest :
    childOverlay.changesTrieConfig = some ⟨4, 1⟩ ∧ childDigestStorage.buildAnchor [] = .ok ⟨[], 0⟩ ∧
    prepareInput zeroHasher blockZeroDigest allKeysExist childDigestStorage ⟨⟨4, 1⟩, 0, none⟩
        childOverlay ⟨[], 0⟩ = .ok ([], overlayAndDigestChildren) ∧
    buildChangesTrie zeroHasher blockZeroDigest allKeysExist (some childDigestStorage) childOverlay [] =
      ((overlayAndDigestChildren.mapM fun c => encodePairs c.2) >>= fun kvss =>
        encodePairs ([] ++ childRootRecords zeroHasher overlayAndDigestChildren kvss) >>= fun kvs =>
          .ok (some (kvss.map (trieEntry zeroHasher) ++ [trieEntry zeroHasher kvs],
            (trieEntry zeroHasher kvs).1))) ∧
    (∃ ext digest, prepareExtrinsicsInputInner allKeysExist ((⟨[], 0⟩ : AnchorBlockId 4).number + 1)
        childOverlay none = .ok ext ∧
      (∃ digestChildren, prepareDigestInput zeroHasher blockZeroDigest ⟨[], 0⟩ ⟨⟨4, 1⟩, 0, none⟩
        ((⟨[], 0⟩ : AnchorBlockId 4).number + 1) childDigestStorage = .ok (digest, digestChildren)) ∧
      [] = ext ++ digest) ∧
    (∀ c ∈ overlayAndDigestChildren, c.1.block = (⟨[], 0⟩ : AnchorBlockId 4).number + 1) ∧
    ∀ kvss, overlayAndDigestChildren.mapM (fun c => encodePairs c.2) = .ok kvss →
      (childRootRecords zeroHasher overlayAndDigestChildren kvss).map InputPair.key =
        (overlayAndDigestChildren.filter fun c => !c.2.isEmpty).map (fun c => .childIndex c.1) ∧
      (∀ kvs ∈ kvss, (kvs.map Prod.fst).Nodup) ∧
      ∀ kvs, encodePairs ([] ++ childRootRecords zeroHasher overlayAndDigestChildren kvss) = .ok kvs →
        (kvs.map Prod.fst).Nodup :=
  have h : prepareInput zeroHasher blockZeroDigest allKeysExist childDigestStorage
      ⟨⟨4, 1⟩, 0, none⟩ childOverlay ⟨[], 0⟩ = .ok ([], overlayAndDigestChildren) := by decide
  have hc : childOverlay.changesTrieConfig = some ⟨4, 1⟩ := rfl
  have ha : childDigestStorage.buildAnchor [] = .ok ⟨[], 0⟩ := rfl
  ⟨hc, ha, h, buildChangesTrie_inserted_pairs hc ha h⟩

theorem buildChangesTrie_childRoots_readBack_overlay_and_digest :
    prepareInput zeroHasher blockZeroDigest allKeysExist childDigestStorage ⟨⟨4, 1⟩, 0, none⟩
        childOverlay ⟨[], 0⟩ = .ok ([], overlayAndDigestChildren) ∧
    materialize zeroHasher ([], overlayAndDigestChildren) =
      .ok (overlayAndDigestTries, List.replicate 32 0) ∧
    ∃ trie, (List.replicate 32 0, trie) ∈ overlayAndDigestTries ∧
      ∃ roots, scanChildRoots zeroHasher trie.toList ((⟨[], 0⟩ : AnchorBlockId 4).number + 1) =
          .ok roots ∧
        ∀ sk r, roots.get? sk = some r ↔ ∃ s kvs,
          (⟨(⟨[], 0⟩ : AnchorBlockId 4).number + 1, sk⟩, s) ∈ overlayAndDigestChildren ∧
          encodePairs s = .ok kvs ∧ kvs ≠ [] ∧ r = zeroHasher.trieRoot (trieOf kvs).toList ∧
          (r, trieOf kvs) ∈ overlayAndDigestTries :=
  have h : prepareInput zeroHasher blockZeroDigest allKeysExist childDigestStorage
      ⟨⟨4, 1⟩, 0, none⟩ childOverlay ⟨[], 0⟩ = .ok ([], overlayAndDigestChildren) := by decide
  have hm : materialize zeroHasher ([], overlayAndDigestChildren) =
      .ok (overlayAndDigestTries, List.replicate 32 0) := rfl
  ⟨h, hm, buildChangesTrie_childRoots_readBack h hm⟩

end Substrate.ChangesTrie
