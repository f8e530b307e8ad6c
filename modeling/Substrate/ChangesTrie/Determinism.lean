import Substrate.ChangesTrie.Children
import Substrate.ChangesTrie.Materialize

/-! Two overlays that hold the same entries, enumerated in different orders, give
the builder the same input and the same trie. The fold of
`prepare_extrinsics_input_inner` reads a key's entries only in layer order, the
child storage keys go through a `BTreeSet`, and the digest part does not read the
overlay. Only the text of an `Err` can differ: it comes from the first key whose
backend check fails, and which key is first depends on the order. -/
namespace Substrate.ChangesTrie

open Codec

variable {w : Nat}

theorem foldlM_ok_congr {ε ε' α β : Type} {f₁ : α → β → Except ε α} {f₂ : α → β → Except ε' α}
    (hf : ∀ a b r, f₁ a b = .ok r ↔ f₂ a b = .ok r) (l : List β) (a r : α) :
    l.foldlM f₁ a = .ok r ↔ l.foldlM f₂ a = .ok r := by
  induction l generalizing a with
  | nil => exact ⟨fun h => by cases h; rfl, fun h => by cases h; rfl⟩
  | cons b l ih => simp only [List.foldlM_cons, except_bind_eq_ok, hf, ih]

/-- The fold of `prepare_extrinsics_input_inner` depends on each key's entries only,
not on how the entries of different keys interleave. -/
theorem foldlM_insertExtrinsics_of_valuesOf {keep : Bytes → Except String Bool}
    {block : BlockNumber w} {e₁ e₂ : List (Bytes × List U32)} (he : ∀ k, valuesOf k e₁ = valuesOf k e₂)
    {m : ExtrinsicsMap w} (h : e₁.foldlM (insertExtrinsics keep block) BTreeMap.empty = .ok m) :
    e₂.foldlM (insertExtrinsics keep block) BTreeMap.empty = .ok m := by
  have hkeys : ∀ k ∈ e₂.map Prod.fst, ∃ b, keep k = .ok b := fun k hk =>
    foldlM_insertExtrinsics_ok_iff.mp ⟨m, h⟩ k
      (mem_keys_iff_valuesOf.mpr ((he k).symm ▸ mem_keys_iff_valuesOf.mp hk))
  obtain ⟨m', hm'⟩ : ∃ m', e₂.foldlM (insertExtrinsics keep block) BTreeMap.empty = .ok m' :=
    foldlM_insertExtrinsics_ok_iff.mpr hkeys
  have : m' = m := BTreeMap.ext fun k => by
    simp only [foldlM_insertExtrinsics_get? hm', foldlM_insertExtrinsics_get? h, extrinsicsRecord, he]
  rw [hm', this]

section SameEntries

variable {o₁ o₂ : OverlayedChanges}

theorem OverlayedChanges.storage_congr (h : o₁.SameEntries o₂) : o₁.storage = o₂.storage := by
  funext k
  simp only [OverlayedChanges.storage, HashMap.get?_eq_of_rel_eq h.1.1 k,
    HashMap.get?_eq_of_rel_eq h.2.1.1 k]

theorem OverlayedChanges.childStorage_congr (h : o₁.SameEntries o₂) :
    o₁.childStorage = o₂.childStorage := by
  funext sk k
  simp only [OverlayedChanges.childStorage, HashMap.bind_get?_eq_of_rel h.1.2 sk k,
    HashMap.bind_get?_eq_of_rel h.2.1.2 sk k]

theorem keepKey_congr (h : o₁.SameEntries o₂) (backend : Backend) :
    keepKey backend o₁ = keepKey backend o₂ := by
  funext sk k
  cases sk <;>
    simp only [keepKey, OverlayedChanges.storage_congr h, OverlayedChanges.childStorage_congr h]

theorem valuesOf_recordedExtrinsics_congr {m₁ m₂ : HashMap Bytes OverlayedValue} (h : m₁.Rel Eq m₂)
    (k : Bytes) : valuesOf k (recordedExtrinsics m₁) = valuesOf k (recordedExtrinsics m₂) := by
  rw [valuesOf_recordedExtrinsics, valuesOf_recordedExtrinsics, HashMap.get?_eq_of_rel_eq h]

theorem valuesOf_childEntries_congr {m₁ m₂ : HashMap Bytes (HashMap Bytes OverlayedValue)}
    (h : m₁.Rel (HashMap.Rel Eq) m₂) (sk k : Bytes) :
    valuesOf k (((m₁.get? sk).map recordedExtrinsics).getD []) =
      valuesOf k (((m₂.get? sk).map recordedExtrinsics).getD []) :=
  match m₁.get? sk, m₂.get? sk, h sk with
  | _, _, .some hc => valuesOf_recordedExtrinsics_congr hc k
  | _, _, .none => rfl

theorem valuesOf_extrinsicsEntries_congr (h : o₁.SameEntries o₂) (storageKey : Option Bytes)
    (k : Bytes) :
    valuesOf k (extrinsicsEntries o₁ storageKey) = valuesOf k (extrinsicsEntries o₂ storageKey) := by
  cases storageKey with
  | none =>
    simp only [extrinsicsEntries, valuesOf_append, valuesOf_recordedExtrinsics_congr h.1.1,
      valuesOf_recordedExtrinsics_congr h.2.1.1]
  | some sk =>
    simp only [extrinsicsEntries, valuesOf_append, valuesOf_childEntries_congr h.1.2,
      valuesOf_childEntries_congr h.2.1.2]

theorem prepareExtrinsicsInputInner_congr (h : o₁.SameEntries o₂) (backend : Backend)
    (block : BlockNumber w) (storageKey : Option Bytes) (r : List (InputPair w)) :
    prepareExtrinsicsInputInner backend block o₁ storageKey = .ok r ↔
      prepareExtrinsicsInputInner backend block o₂ storageKey = .ok r := by
  have he := valuesOf_extrinsicsEntries_congr h storageKey
  rw [prepareExtrinsicsInputInner, prepareExtrinsicsInputInner, keepKey_congr h, except_map_eq_ok,
    except_map_eq_ok]
  exact exists_congr fun _ => and_congr_left fun _ =>
    ⟨foldlM_insertExtrinsics_of_valuesOf he, foldlM_insertExtrinsics_of_valuesOf fun k => (he k).symm⟩

theorem prepareExtrinsicsInput_congr (h : o₁.SameEntries o₂) (backend : Backend)
    (block : BlockNumber w) (r : List (InputPair w) × BTreeMap (ChildIndex w) (List (InputPair w))) :
    prepareExtrinsicsInput backend block o₁ = .ok r ↔ prepareExtrinsicsInput backend block o₂ = .ok r := by
  have hkeys : BTreeSet.ofList (o₁.prospective.children.keys ++ o₁.committed.children.keys) =
      BTreeSet.ofList (o₂.prospective.children.keys ++ o₂.committed.children.keys) :=
    BTreeSet.eq_of_mem_iff fun k => by
      simp only [BTreeSet.mem_ofList, List.mem_append, HashMap.mem_keys_congr h.1.2 k,
        HashMap.mem_keys_congr h.2.1.2 k]
  have hstep : ∀ (acc : BTreeMap (ChildIndex w) (List (InputPair w))) sk r,
      ((prepareExtrinsicsInputInner backend block o₁ (some sk)).map fun iter =>
        acc.insert ⟨block, sk⟩ iter) = .ok r ↔
      ((prepareExtrinsicsInputInner backend block o₂ (some sk)).map fun iter =>
        acc.insert ⟨block, sk⟩ iter) = .ok r := fun acc sk r => by
    simp only [except_map_eq_ok, prepareExtrinsicsInputInner_congr h]
  simp only [prepareExtrinsicsInput, hkeys, except_bind_eq_ok, foldlM_ok_congr hstep,
    prepareExtrinsicsInputInner_congr h]

/-- `prepare_input` gives the same streams, the same error or the same panic on both
overlays; only the text of an error may differ. -/
theorem prepareInput_congr (h : o₁.SameEntries o₂) (H : Hasher) (sched : DigestSchedule w)
    (backend : Backend) (storage : Storage w) (config : ConfigurationRange w)
    (parent : AnchorBlockId w) :
    (prepareInput H sched backend storage config o₁ parent).eraseErr =
      (prepareInput H sched backend storage config o₂ parent).eraseErr :=
  Outcome.eraseErr_bind_congr
    (Outcome.eraseErr_ofExcept_congr (prepareExtrinsicsInput_congr h backend _)) fun _ => rfl

theorem buildChangesTrie_congr (h : o₁.SameEntries o₂) (H : Hasher) (sched : DigestSchedule w)
    (backend : Backend) (storage : Option (Storage w)) (parentHash : Bytes) :
    buildChangesTrie H sched backend storage o₁ parentHash =
      buildChangesTrie H sched backend storage o₂ parentHash := by
  unfold buildChangesTrie
  rw [h.2.2]
  rcases storage with _ | storage
  · rfl
  cases o₂.changesTrieConfig with
  | none => rfl
  | some config =>
    dsimp only
    cases storage.buildAnchor parentHash with
    | error => rfl
    | ok parent =>
      dsimp only
      rw [Outcome.expect_congr (prepareInput_congr h H sched backend storage _ parent)]

/-- Order independence of the builder: overlays with the same entries give the
same streams and the same trie. -/
theorem prepareInput_buildChangesTrie_order_independent (h : o₁.SameEntries o₂) (H : Hasher)
    (sched : DigestSchedule w) (backend : Backend) (storage : Storage w)
    (config : ConfigurationRange w) (parent : AnchorBlockId w) (parentHash : Bytes) :
    (prepareInput H sched backend storage config o₁ parent).eraseErr =
      (prepareInput H sched backend storage config o₂ parent).eraseErr ∧
    buildChangesTrie H sched backend (some storage) o₁ parentHash =
      buildChangesTrie H sched backend (some storage) o₂ parentHash :=
  ⟨prepareInput_congr h H sched backend storage config parent,
    buildChangesTrie_congr h H sched backend (some storage) parentHash⟩

end SameEntries

def prospectiveTopOverlay (top : List (Bytes × OverlayedValue)) (h : (top.map Prod.fst).Nodup) :
    OverlayedChanges :=
  ⟨⟨⟨top, h⟩, ⟨[], List.nodup_nil⟩⟩, ⟨⟨[], List.nodup_nil⟩, ⟨[], List.nodup_nil⟩⟩, some ⟨4, 1⟩⟩

/-- A block that set key `[1]` in extrinsic 0 and cleared key `[2]` in extrinsic 1,
its top map enumerated one way and the other. -/
def setThenCleared : OverlayedChanges :=
  prospectiveTopOverlay
    [([1], ⟨some [7], some (BTreeSet.ofList [0])⟩), ([2], ⟨none, some (BTreeSet.ofList [1])⟩)]
    (by decide)

def clearedThenSet : OverlayedChanges :=
  prospectiveTopOverlay
    [([2], ⟨none, some (BTreeSet.ofList [1])⟩), ([1], ⟨some [7], some (BTreeSet.ofList [0])⟩)]
    (by decide)

theorem prepareInput_buildChangesTrie_order_independent_swap :
    setThenCleared.SameEntries clearedThenSet ∧
    ((prepareInput zeroHasher ⟨fun _ _ => [], fun _ _ _ => none⟩ ⟨fun _ => .ok true, fun _ _ => .ok true⟩
        ⟨fun _ => .ok ⟨[], 0⟩, fun _ _ => .ok none, fun _ => []⟩ ⟨⟨4, 1⟩, 0, none⟩ setThenCleared
        (⟨[], 0⟩ : AnchorBlockId 4)).eraseErr =
      (prepareInput zeroHasher ⟨fun _ _ => [], fun _ _ _ => none⟩ ⟨fun _ => .ok true, fun _ _ => .ok true⟩
        ⟨fun _ => .ok ⟨[], 0⟩, fun _ _ => .ok none, fun _ => []⟩ ⟨⟨4, 1⟩, 0, none⟩ clearedThenSet
        (⟨[], 0⟩ : AnchorBlockId 4)).eraseErr ∧
    buildChangesTrie zeroHasher ⟨fun _ _ => [], fun _ _ _ => none⟩ ⟨fun _ => .ok true, fun _ _ => .ok true⟩
        (some (⟨fun _ => .ok ⟨[], 0⟩, fun _ _ => .ok none, fun _ => []⟩ : Storage 4)) setThenCleared [] =
      buildChangesTrie zeroHasher ⟨fun _ _ => [], fun _ _ _ => none⟩ ⟨fun _ => .ok true, fun _ _ => .ok true⟩
        (some (⟨fun _ => .ok ⟨[], 0⟩, fun _ _ => .ok none, fun _ => []⟩ : Storage 4)) clearedThenSet []) :=
  have h : setThenCleared.SameEntries clearedThenSet :=
    ⟨⟨HashMap.rel_eq_of_perm (List.Perm.swap _ _ _), fun _ => .none⟩,
      ⟨HashMap.rel_eq_of_perm (List.Perm.refl _), fun _ => .none⟩, rfl⟩
  ⟨h, prepareInput_buildChangesTrie_order_independent h _ _ _ _ _ _ _⟩

end Substrate.ChangesTrie
