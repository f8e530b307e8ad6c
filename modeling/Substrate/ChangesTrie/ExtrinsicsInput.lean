import Substrate.ChangesTrie.Build

/-! What the fold of `prepare_extrinsics_input_inner` computes, key by key. A key
gets a record when some entry records extrinsics for it and the key passes the
temporary-value filter; the record merges the entries' extrinsics in the order the
entries come. The fold fails exactly when the filter fails on one of the keys. -/
namespace Substrate.ChangesTrie

open Codec

variable {w : Nat}

def mergeExtrinsics : List (List U32) → List U32
  | [] => []
  | s :: rest => rest.foldl (fun acc t => (acc ++ t).mergeSort) s

theorem mergeExtrinsics_append_singleton {sets : List (List U32)} (h : sets ≠ []) (s : List U32) :
    mergeExtrinsics (sets ++ [s]) = (mergeExtrinsics sets ++ s).mergeSort := by
  obtain ⟨t, rest, rfl⟩ := List.exists_cons_of_ne_nil h
  simp [mergeExtrinsics, List.foldl_append]

def extrinsicsRecord (keep : Bytes → Except String Bool) (block : BlockNumber w)
    (entries : List (Bytes × List U32)) (k : Bytes) : Option (ExtrinsicIndex w × List U32) :=
  match keep k with
  | .ok true =>
    if valuesOf k entries = [] then none
    else some (⟨block, k⟩, mergeExtrinsics (valuesOf k entries))
  | _ => none

theorem extrinsicsRecord_of_ne {keep : Bytes → Except String Bool} {block : BlockNumber w}
    {l : List (Bytes × List U32)} {k k₀ : Bytes} (hk : k₀ ≠ k) (s : List U32) :
    extrinsicsRecord keep block (l ++ [(k₀, s)]) k = extrinsicsRecord keep block l k := by
  simp [extrinsicsRecord, valuesOf_append, valuesOf_cons, hk]

theorem extrinsicsRecord_snoc {keep : Bytes → Except String Bool} {block : BlockNumber w}
    {l : List (Bytes × List U32)} {k : Bytes} (s : List U32) :
    extrinsicsRecord keep block (l ++ [(k, s)]) k =
      match keep k with
      | .ok true => some (⟨block, k⟩, mergeExtrinsics (valuesOf k l ++ [s]))
      | _ => none := by
  simp [extrinsicsRecord, valuesOf_append, valuesOf_cons]

/-- Inversion of one step of the fold: a `Vacant` key was checked and inserted when
kept, an `Occupied` one had its extrinsics extended and sorted. -/
theorem insertExtrinsics_eq_ok {keep : Bytes → Except String Bool} {block : BlockNumber w}
    {m m' : ExtrinsicsMap w} {k₀ : Bytes} {s : List U32} :
    insertExtrinsics keep block m (k₀, s) = .ok m' ↔
      (m.get? k₀ = none ∧ ∃ kept, keep k₀ = .ok kept ∧
        (if kept then m.insert k₀ (⟨block, k₀⟩, s) else m) = m') ∨
      ∃ index extrinsics, m.get? k₀ = some (index, extrinsics) ∧
        m.insert k₀ (index, (extrinsics ++ s).mergeSort) = m' := by
  unfold insertExtrinsics
  rcases m.get? k₀ with _ | ⟨index, extrinsics⟩
  · simp [except_map_eq_ok]
  · simp [and_assoc]

/-- The step lemma of the fold: after one more entry, every key's record is still
`extrinsicsRecord` of the entries seen so far. -/
theorem get?_insertExtrinsics {keep : Bytes → Except String Bool} {block : BlockNumber w}
    {l : List (Bytes × List U32)} {m m' : ExtrinsicsMap w} {e : Bytes × List U32}
    (ih : ∀ k, m'.get? k = extrinsicsRecord keep block l k)
    (h : insertExtrinsics keep block m' e = .ok m) (k : Bytes) :
    m.get? k = extrinsicsRecord keep block (l ++ [e]) k := by
  obtain ⟨k₀, s⟩ := e
  by_cases hk : k₀ = k
  case neg =>
    rw [extrinsicsRecord_of_ne hk, ← ih k]
    rcases insertExtrinsics_eq_ok.mp h with ⟨-, kept, -, rfl⟩ | ⟨_, _, -, rfl⟩
    · split_ifs <;> simp [hk]
    · simp [hk]
  case pos =>
    subst hk
    have hrec := ih k₀
    rw [extrinsicsRecord_snoc]
    unfold extrinsicsRecord at hrec
    rcases insertExtrinsics_eq_ok.mp h with ⟨hnone, kept, hkeep, rfl⟩ | ⟨index, extrinsics, hsome, rfl⟩
    · rw [hkeep] at hrec ⊢
      cases kept
      · simpa using hnone
      · have hnil : valuesOf k₀ l = [] := by
          by_contra hv
          simp [hv, hnone] at hrec
        simp [hnil, mergeExtrinsics]
    · rw [hsome] at hrec
      cases hkeep : keep k₀ with
      | error e => simp [hkeep] at hrec
      | ok kept =>
        cases kept
        · simp [hkeep] at hrec
        · simp only [hkeep] at hrec ⊢
          split_ifs at hrec with hv
          cases hrec
          simp [mergeExtrinsics_append_singleton hv]

theorem foldlM_insertExtrinsics_get? {keep : Bytes → Except String Bool} {block : BlockNumber w}
    {entries : List (Bytes × List U32)} {m : ExtrinsicsMap w}
    (h : entries.foldlM (insertExtrinsics keep block) BTreeMap.empty = .ok m) (k : Bytes) :
    m.get? k = extrinsicsRecord keep block entries k := by
  induction entries using List.reverseRecOn generalizing m k with
  | nil =>
    cases h
    unfold extrinsicsRecord
    split <;> simp
  | append_singleton l e ih =>
    rw [List.foldlM_append, except_bind_eq_ok] at h
    obtain ⟨m', hm', hstep⟩ := h
    simp only [List.foldlM_cons, List.foldlM_nil, bind_pure] at hstep
    exact get?_insertExtrinsics (ih hm') hstep k

/-- The fold succeeds exactly when the temporary-value filter answers for every key
that has an entry. -/
theorem foldlM_insertExtrinsics_ok_iff {keep : Bytes → Except String Bool} {block : BlockNumber w}
    {entries : List (Bytes × List U32)} :
    (∃ m, entries.foldlM (insertExtrinsics keep block) BTreeMap.empty = .ok m) ↔
      ∀ k ∈ entries.map Prod.fst, ∃ b, keep k = .ok b := by
  induction entries using List.reverseRecOn with
  | nil => exact ⟨fun _ k hk => by simp at hk, fun _ => ⟨_, rfl⟩⟩
  | append_singleton l e ih =>
    obtain ⟨k₀, s⟩ := e
    simp only [List.foldlM_append, List.foldlM_cons, List.foldlM_nil, bind_pure, List.map_append,
      List.mem_append, List.map_cons, List.map_nil, List.mem_singleton]
    constructor
    · rintro ⟨m, h⟩
      obtain ⟨m', hm', hstep⟩ := except_bind_eq_ok.mp h
      have hl := ih.mp ⟨m', hm'⟩
      have hk₀ : ∃ b, keep k₀ = .ok b := by
        rcases insertExtrinsics_eq_ok.mp hstep with ⟨-, kept, hkeep, -⟩ | ⟨_, _, hsome, -⟩
        · exact ⟨kept, hkeep⟩
        · rw [foldlM_insertExtrinsics_get? hm', extrinsicsRecord] at hsome
          split at hsome
          · exact ⟨true, ‹_›⟩
          · cases hsome
      rintro k (hk | rfl)
      · exact hl k hk
      · exact hk₀
    · intro hall
      obtain ⟨m', hm'⟩ := ih.mpr fun k hk => hall k (.inl hk)
      obtain ⟨b, hb⟩ := hall k₀ (.inr rfl)
      rw [hm']
      show ∃ m, insertExtrinsics keep block m' (k₀, s) = .ok m
      unfold insertExtrinsics
      split
      · exact ⟨_, by rw [hb]; rfl⟩
      · exact ⟨_, rfl⟩

theorem valuesOf_filterMap {K V W : Type} [DecidableEq K] (f : V → Option W) (k : K)
    (l : List (K × V)) :
    valuesOf k (l.filterMap fun e => (f e.2).map (e.1, ·)) = (valuesOf k l).filterMap f := by
  induction l with
  | nil => rfl
  | cons e rest ih =>
    obtain ⟨k', v⟩ := e
    rw [valuesOf_cons, List.filterMap_cons]
    cases hf : f v <;> by_cases hk : k' = k <;> simp [hf, hk, ih, valuesOf_cons]

theorem valuesOf_recordedExtrinsics (m : HashMap Bytes OverlayedValue) (k : Bytes) :
    valuesOf k (recordedExtrinsics m) = (((m.get? k).bind (·.extrinsics)).map (·.keys)).toList := by
  have : recordedExtrinsics m =
      m.toList.filterMap fun e => (e.2.extrinsics.map (·.keys)).map (e.1, ·) := by
    simp [recordedExtrinsics, Option.map_map, Function.comp_def]
  rw [this]
  refine (valuesOf_filterMap (fun v : OverlayedValue => v.extrinsics.map (·.keys)) k m.toList).trans ?_
  rw [HashMap.valuesOf_toList]
  cases m.get? k with
  | none => rfl
  | some v => cases v.extrinsics <;> rfl

/-- A stream holds one record for each of some distinct keys, of the family and block
that `mk` names. -/
def KeyedBy (mk : Bytes → InputKey w) (s : List (InputPair w)) : Prop :=
  ∃ ks : List Bytes, ks.Nodup ∧ s.map InputPair.key = ks.map mk

theorem KeyedBy.nodup {mk : Bytes → InputKey w} {s : List (InputPair w)} (h : KeyedBy mk s)
    (hmk : Function.Injective mk) : (s.map InputPair.key).Nodup := by
  obtain ⟨ks, hks, he⟩ := h
  rw [he]
  exact hks.map hmk

theorem KeyedBy.exists_key {mk : Bytes → InputKey w} {s : List (InputPair w)} (h : KeyedBy mk s)
    {p : InputPair w} (hp : p ∈ s) : ∃ k, p.key = mk k := by
  obtain ⟨ks, -, he⟩ := h
  have : p.key ∈ ks.map mk := he ▸ List.mem_map_of_mem _ hp
  obtain ⟨k, -, hk⟩ := List.mem_map.mp this
  exact ⟨k, hk.symm⟩

theorem map_key_of_get? {α β : Type} {m : BTreeMap Bytes (α × β)} {f : α → β → InputPair w}
    {mk : Bytes → InputKey w} (h : ∀ k v, m.get? k = some v → (f v.1 v.2).key = mk k) :
    (m.toList.map fun e => f e.2.1 e.2.2).map InputPair.key = m.keys.map mk := by
  rw [List.map_map, BTreeMap.keys, List.map_map]
  exact List.map_congr_left fun e he => h e.1 e.2 (BTreeMap.get?_eq_some_iff.mpr he)

theorem keyedBy_of_get? {α β : Type} {m : BTreeMap Bytes (α × β)} {f : α → β → InputPair w}
    {mk : Bytes → InputKey w} (h : ∀ k v, m.get? k = some v → (f v.1 v.2).key = mk k) :
    KeyedBy mk (m.toList.map fun e => f e.2.1 e.2.2) :=
  ⟨m.keys, m.keys_nodup, map_key_of_get? h⟩

theorem nodup_keys_append {s₁ s₂ : List (InputPair w)} (h₁ : (s₁.map InputPair.key).Nodup)
    (h₂ : (s₂.map InputPair.key).Nodup) (hd : ∀ p ∈ s₁, ∀ q ∈ s₂, p.key ≠ q.key) :
    ((s₁ ++ s₂).map InputPair.key).Nodup := by
  rw [List.map_append]
  refine h₁.append h₂ fun a ha hb => ?_
  obtain ⟨p, hp, rfl⟩ := List.mem_map.mp ha
  obtain ⟨q, hq, hpq⟩ := List.mem_map.mp hb
  exact hd p hp q hq hpq.symm

theorem key_of_extrinsicsRecord {keep : Bytes → Except String Bool} {block : BlockNumber w}
    {entries : List (Bytes × List U32)} {k : Bytes} {v : ExtrinsicIndex w × List U32}
    (hv : extrinsicsRecord keep block entries k = some v) :
    v = (⟨block, k⟩, mergeExtrinsics (valuesOf k entries)) := by
  unfold extrinsicsRecord at hv
  split at hv
  · split_ifs at hv
    exact (Option.some.inj hv).symm
  · cases hv

/-- `prepare_extrinsics_input_inner` gives one `ExtrinsicIndex` record of the block
per key. -/
theorem prepareExtrinsicsInputInner_keyedBy {backend : Backend} {block : BlockNumber w}
    {changes : OverlayedChanges} {storageKey : Option Bytes} {r : List (InputPair w)}
    (h : prepareExtrinsicsInputInner backend block changes storageKey = .ok r) :
    KeyedBy (fun k => .extrinsicIndex ⟨block, k⟩) r := by
  obtain ⟨m, hm, rfl⟩ := except_map_eq_ok.mp h
  refine keyedBy_of_get? fun k v hv => ?_
  rw [foldlM_insertExtrinsics_get? hm] at hv
  rw [key_of_extrinsicsRecord hv]
  rfl

def OverlayedChangeSet.entry (c : OverlayedChangeSet) : Option Bytes → Bytes → Option OverlayedValue
  | some sk, k => (c.children.get? sk).bind (·.get? k)
  | none, k => c.top.get? k

def OverlayedChanges.finalValue (changes : OverlayedChanges) :
    Option Bytes → Bytes → Option (Option Bytes)
  | some sk, k => changes.childStorage sk k
  | none, k => changes.storage k

def Backend.existsKey (backend : Backend) : Option Bytes → Bytes → Except String Bool
  | some sk, k => backend.existsChildStorage sk k
  | none, k => backend.existsStorage k

theorem keepKey_eq (backend : Backend) (changes : OverlayedChanges) (storageKey : Option Bytes)
    (k : Bytes) :
    keepKey backend changes storageKey k =
      if ((changes.finalValue storageKey k).map Option.isSome).getD false then .ok true
      else backend.existsKey storageKey k := by
  cases storageKey <;> rfl

theorem valuesOf_recorded_getD (m : Option (HashMap Bytes OverlayedValue)) (k : Bytes) :
    valuesOf k ((m.map recordedExtrinsics).getD []) =
      (((m.bind (·.get? k)).bind (·.extrinsics)).map (·.keys)).toList := by
  cases m with
  | none => rfl
  | some m => exact valuesOf_recordedExtrinsics m k

/-- The extrinsic sets the fold meets for a key: the committed entry's, then the
prospective entry's. -/
theorem valuesOf_extrinsicsEntries (changes : OverlayedChanges) (storageKey : Option Bytes)
    (k : Bytes) :
    valuesOf k (extrinsicsEntries changes storageKey) =
      (((changes.committed.entry storageKey k).bind (·.extrinsics)).map (·.keys)).toList ++
        (((changes.prospective.entry storageKey k).bind (·.extrinsics)).map (·.keys)).toList := by
  cases storageKey with
  | none => simp only [extrinsicsEntries, valuesOf_append, valuesOf_recordedExtrinsics]; rfl
  | some sk => simp only [extrinsicsEntries, valuesOf_append, valuesOf_recorded_getD]; rfl

theorem isSome_extrinsicsRecord {keep : Bytes → Except String Bool} {block : BlockNumber w}
    {entries : List (Bytes × List U32)} {k : Bytes} :
    (extrinsicsRecord keep block entries k).isSome ↔ keep k = .ok true ∧ valuesOf k entries ≠ [] := by
  unfold extrinsicsRecord
  split
  · next h => split_ifs with hv <;> simp [h, hv]
  · next h => exact iff_of_false (by simp) fun h' => h h'.1

theorem toList_entry_ne_nil {e : Option OverlayedValue} :
    ((e.bind (·.extrinsics)).map (·.keys)).toList ≠ [] ↔ ∃ v, e = some v ∧ v.extrinsics.isSome := by
  rcases e with _ | ⟨_, _ | _⟩ <;> simp

theorem isSome_entry_extrinsics {e₁ e₂ : Option OverlayedValue} :
    (((e₁.bind (·.extrinsics)).map (·.keys)).toList ++
        ((e₂.bind (·.extrinsics)).map (·.keys)).toList ≠ []) ↔
      ∃ v, (e₁ = some v ∨ e₂ = some v) ∧ v.extrinsics.isSome := by
  rw [Ne, List.append_eq_nil, not_and_or, ← Ne, ← Ne, toList_entry_ne_nil, toList_entry_ne_nil]
  simp only [or_and_right, exists_or]

def extrinsicThree : BTreeSet U32 := ⟨[(3, ())], List.pairwise_singleton _ _⟩

def bothLayersInExtrinsicThree : OverlayedChanges where
  prospective := ⟨⟨[([7], ⟨some [2], some extrinsicThree⟩)], List.nodup_singleton _⟩, ⟨[], .nil⟩⟩
  committed := ⟨⟨[([7], ⟨some [1], some extrinsicThree⟩)], List.nodup_singleton _⟩, ⟨[], .nil⟩⟩
  changesTrieConfig := none

def emptyBackend : Backend := ⟨fun _ => .ok false, fun _ _ => .ok false⟩

/-- `prepare_extrinsics_input_inner` over a backend whose existence checks succeed: one
`ExtrinsicIndex` record for each key that some layer records extrinsics for and that
is set at the end or exists in the backend, and no other, in strictly ascending key
order. -/
theorem prepareExtrinsicsInputInner_records (backend : Backend) (block : BlockNumber w)
    (changes : OverlayedChanges) (storageKey : Option Bytes)
    (hb : ∀ k, ∃ b, backend.existsKey storageKey k = .ok b) :
    ∃ r, prepareExtrinsicsInputInner backend block changes storageKey = .ok r ∧
      ∃ ks : List Bytes, ks.Pairwise (· < ·) ∧
        (∀ k, k ∈ ks ↔
          (∃ v, (changes.committed.entry storageKey k = some v ∨
              changes.prospective.entry storageKey k = some v) ∧ v.extrinsics.isSome) ∧
          ((∃ v, changes.finalValue storageKey k = some (some v)) ∨
              backend.existsKey storageKey k = .ok true)) ∧
        r.map InputPair.key = ks.map fun k => .extrinsicIndex ⟨block, k⟩ := by
  have hkeep : ∀ k, keepKey backend changes storageKey k = .ok true ↔
      (∃ v, changes.finalValue storageKey k = some (some v)) ∨
        backend.existsKey storageKey k = .ok true := fun k => by
    rw [keepKey_eq]
    rcases changes.finalValue storageKey k with _ | _ | v <;> simp
  obtain ⟨m, hm⟩ : ∃ m, (extrinsicsEntries changes storageKey).foldlM
      (insertExtrinsics (keepKey backend changes storageKey) block) BTreeMap.empty = .ok m :=
    foldlM_insertExtrinsics_ok_iff.mpr fun k _ => by
      rw [keepKey_eq]
      split
      · exact ⟨true, rfl⟩
      · exact hb k
  refine ⟨_, congrArg (Except.map _) hm, m.keys, List.pairwise_map.mpr m.sorted, fun k => ?_,
    map_key_of_get? fun k v hv => ?_⟩
  · rw [BTreeMap.mem_keys, foldlM_insertExtrinsics_get? hm, isSome_extrinsicsRecord, hkeep,
      valuesOf_extrinsicsEntries, isSome_entry_extrinsics, and_comm]
  · rw [foldlM_insertExtrinsics_get? hm] at hv
    rw [key_of_extrinsicsRecord hv]
    rfl

theorem prepareExtrinsicsInputInner_records_both_layers :
    (∀ k, ∃ b, emptyBackend.existsKey none k = .ok b) ∧
      ∃ r, prepareExtrinsicsInputInner emptyBackend (1 : BlockNumber 4) bothLayersInExtrinsicThree
          none = .ok r ∧
        ∃ ks : List Bytes, ks.Pairwise (· < ·) ∧
          (∀ k, k ∈ ks ↔
            (∃ v, (bothLayersInExtrinsicThree.committed.entry none k = some v ∨
                bothLayersInExtrinsicThree.prospective.entry none k = some v) ∧ v.extrinsics.isSome) ∧
            ((∃ v, bothLayersInExtrinsicThree.finalValue none k = some (some v)) ∨
                emptyBackend.existsKey none k = .ok true)) ∧
          r.map InputPair.key = ks.map fun k => .extrinsicIndex ⟨(1 : BlockNumber 4), k⟩ :=
  ⟨fun _ => ⟨false, rfl⟩,
    prepareExtrinsicsInputInner_records emptyBackend 1 bothLayersInExtrinsicThree none
      fun _ => ⟨false, rfl⟩⟩

theorem flatten_toList {α : Type} (a : Option (List α)) : a.toList.flatten = a.getD [] := by
  cases a <;> simp

theorem mergeExtrinsics_perm (sets : List (List U32)) : (mergeExtrinsics sets).Perm sets.flatten := by
  induction sets using List.reverseRecOn with
  | nil => exact .nil
  | append_singleton sets s ih =>
    by_cases hne : sets = []
    · simp [hne, mergeExtrinsics]
    · rw [mergeExtrinsics_append_singleton hne, List.flatten_append, List.flatten_singleton]
      exact (List.mergeSort_perm _ _).trans (ih.append_right s)

theorem mergeExtrinsics_sorted {sets : List (List U32)} (h : ∀ s ∈ sets, s.Pairwise (· ≤ ·)) :
    (mergeExtrinsics sets).Pairwise (· ≤ ·) := by
  induction sets using List.reverseRecOn with
  | nil => exact .nil
  | append_singleton sets s _ =>
    by_cases hne : sets = []
    · subst hne
      exact h s (List.mem_singleton_self _)
    · rw [mergeExtrinsics_append_singleton hne]
      simpa using @List.sorted_mergeSort U32 (fun a b => decide (a ≤ b))
        (fun _ _ _ hab hbc => by simp only [decide_eq_true_eq] at *; exact le_trans hab hbc)
        (fun a b => by simpa using le_total a b) (mergeExtrinsics sets ++ s)

/-- The value of every record is the extrinsic sets of its key's committed and
prospective entries, concatenated and sorted, with an index both sets hold kept
twice. -/
theorem prepareExtrinsicsInputInner_value {backend : Backend} {block : BlockNumber w}
    {changes : OverlayedChanges} {storageKey : Option Bytes} {r : List (InputPair w)}
    (h : prepareExtrinsicsInputInner backend block changes storageKey = .ok r) {k : Bytes}
    {v : List U32} (hp : InputPair.extrinsicIndex ⟨block, k⟩ v ∈ r) :
    v.Pairwise (· ≤ ·) ∧
      v.Perm ((((changes.committed.entry storageKey k).bind (·.extrinsics)).map (·.keys)).getD [] ++
        (((changes.prospective.entry storageKey k).bind (·.extrinsics)).map (·.keys)).getD []) := by
  obtain ⟨m, hm, rfl⟩ := except_map_eq_ok.mp h
  obtain ⟨⟨k', e⟩, he, hpe⟩ := List.mem_map.mp hp
  rw [← BTreeMap.get?_eq_some_iff, foldlM_insertExtrinsics_get? hm] at he
  obtain rfl := key_of_extrinsicsRecord he
  simp only [InputPair.extrinsicIndex.injEq, ExtrinsicIndex.mk.injEq, true_and] at hpe
  obtain ⟨rfl, rfl⟩ := hpe
  refine ⟨mergeExtrinsics_sorted fun s hs => ?_, (mergeExtrinsics_perm _).trans ?_⟩
  · rw [valuesOf_extrinsicsEntries, List.mem_append, Option.mem_toList, Option.mem_toList,
      Option.mem_def, Option.mem_def, Option.map_eq_some', Option.map_eq_some'] at hs
    obtain ⟨t, -, rfl⟩ | ⟨t, -, rfl⟩ := hs <;> exact (List.pairwise_map.mpr t.sorted).imp le_of_lt
  · rw [valuesOf_extrinsicsEntries, List.flatten_append, flatten_toList, flatten_toList]

/-- When both layers record extrinsic 3 for a key, its record lists 3 twice. -/
theorem prepareExtrinsicsInputInner_repeats_shared_index :
    prepareExtrinsicsInputInner emptyBackend (1 : BlockNumber 4) bothLayersInExtrinsicThree none =
      .ok [.extrinsicIndex ⟨1, [7]⟩ ([3, 3] : List U32)] := by
  have h : prepareExtrinsicsInputInner emptyBackend (1 : BlockNumber 4) bothLayersInExtrinsicThree
      none = .ok [.extrinsicIndex ⟨1, [7]⟩ ((([3] : List U32) ++ [3]).mergeSort fun a b => decide (a ≤ b))] :=
    rfl
  rw [h, List.mergeSort_of_sorted (by decide)]
  rfl

end Substrate.ChangesTrie
