import Substrate.ChangesTrie.Overlay

/-! `core/state-machine/src/testing.rs`: the test externalities, an overlay of changes
over an in-memory backend. A read asks the overlay first and the backend below it;
`commit_all` folds both layers of the overlay into a new backend, and the externalities'
`PartialEq` compares those backends. -/
namespace Substrate.StateMachine

open ChangesTrie

/-- One change of `Backend::update`: the child storage key (`none` for the top map),
the key, and the new value (`none` deletes the key). -/
abbrev Change := Option Bytes × Bytes × Option Bytes

def lastChange (keyspace : Option Bytes) (key : Bytes) : List Change → Option (Option Bytes)
  | [] => none
  | (ks, k, v) :: changes =>
    (lastChange keyspace key changes).or (if ks = keyspace ∧ k = key then some v else none)

/-- The reads and the `update` of the `InMemory` backend, which the test externalities
call. `InMemory` is not among the files given: the model takes its operations as given
functions under the contract `InMemoryOps.Laws`. -/
structure InMemoryOps (B : Type) where
  storage : B → Bytes → Except String (Option Bytes)
  childStorage : B → Bytes → Bytes → Except String (Option Bytes)
  update : B → List Change → B

/-- The contract of `InMemory::update`: the changes apply in order, so the last change of
a key decides what it reads, and a key that no change names reads as before. -/
structure InMemoryOps.Laws {B : Type} (ops : InMemoryOps B) : Prop where
  storage_update (b : B) (changes : List Change) (key : Bytes) :
    ops.storage (ops.update b changes) key =
      match lastChange none key changes with
      | some v => .ok v
      | none => ops.storage b key
  childStorage_update (b : B) (changes : List Change) (storageKey key : Bytes) :
    ops.childStorage (ops.update b changes) storageKey key =
      match lastChange (some storageKey) key changes with
      | some v => .ok v
      | none => ops.childStorage b storageKey key

/-- `TestExternalities`: the overlay and the backend. The changes trie storage, the
offchain externalities and the keystore are left out: no function modelled here reads
them. -/
structure TestExternalities (B : Type) where
  overlay : OverlayedChanges
  backend : B

namespace TestExternalities

variable {B : Type} (ops : InMemoryOps B)

/-- `storage`: the overlay's value when it has the key, otherwise the backend's, whose
`Err` the `expect` turns into a panic. -/
def storage (t : TestExternalities B) (key : Bytes) : Outcome Empty (Option Bytes) :=
  match t.overlay.storage key with
  | some v => .ok v
  | none => (Outcome.ofExcept (ops.storage t.backend key)).expect

def originalStorage (t : TestExternalities B) (key : Bytes) : Outcome Empty (Option Bytes) :=
  (Outcome.ofExcept (ops.storage t.backend key)).expect

def childStorage (t : TestExternalities B) (storageKey key : Bytes) : Outcome Empty (Option Bytes) :=
  match t.overlay.childStorage storageKey key with
  | some v => .ok v
  | none => (Outcome.ofExcept (ops.childStorage t.backend storageKey key)).expect

def originalChildStorage (t : TestExternalities B) (storageKey key : Bytes) :
    Outcome Empty (Option Bytes) :=
  (Outcome.ofExcept (ops.childStorage t.backend storageKey key)).expect

def insert (t : TestExternalities B) (k v : Bytes) : TestExternalities B :=
  { t with backend := ops.update t.backend [(none, k, some v)] }

/-- `commit_all`: the backend updated with the top maps of the committed layer and then
of the prospective layer, followed by the child maps in the same order. -/
def commitAll (t : TestExternalities B) : B :=
  let top := (t.overlay.committed.top.toList ++ t.overlay.prospective.top.toList).map
    fun (k, v) => ((none : Option Bytes), k, v.value)
  let children := (t.overlay.committed.children.toList ++ t.overlay.prospective.children.toList).flatMap
    fun (keyspace, map) => map.toList.map fun (k, v) => (some keyspace, k, v.value)
  ops.update t.backend (top ++ children)

/-- `PartialEq`: the two backends `commit_all` gives are equal. -/
def eq [DecidableEq B] (t₁ t₂ : TestExternalities B) : Bool :=
  decide (t₁.commitAll ops = t₂.commitAll ops)

end TestExternalities

section LastChange

variable {keyspace : Option Bytes} {key : Bytes}

@[simp] theorem lastChange_nil : lastChange keyspace key [] = none := rfl

@[simp] theorem lastChange_cons (ks : Option Bytes) (k : Bytes) (v : Option Bytes) (changes : List Change) :
    lastChange keyspace key ((ks, k, v) :: changes) =
      (lastChange keyspace key changes).or (if ks = keyspace ∧ k = key then some v else none) := rfl

theorem lastChange_append (changes₁ changes₂ : List Change) :
    lastChange keyspace key (changes₁ ++ changes₂) =
      (lastChange keyspace key changes₂).or (lastChange keyspace key changes₁) := by
  induction changes₁ with
  | nil => exact Option.or_none.symm
  | cons c changes₁ ih =>
    obtain ⟨ks, k, v⟩ := c
    rw [List.cons_append, lastChange_cons, lastChange_cons, ih, Option.or_assoc]

theorem lastChange_eq_none {changes : List Change} (h : ∀ c ∈ changes, c.1 ≠ keyspace) :
    lastChange keyspace key changes = none := by
  induction changes with
  | nil => rfl
  | cons c changes ih =>
    obtain ⟨ks, k, v⟩ := c
    have hks : ks ≠ keyspace := h _ (List.mem_cons_self _ _)
    rw [lastChange_cons, ih fun c hc => h c (List.mem_cons_of_mem _ hc), if_neg fun h => hks h.1]
    rfl

/-- In the changes listed from one map, whose keys are distinct, the last change of a
key is the map's own entry. -/
theorem lastChange_map (l : List (Bytes × OverlayedValue)) (hl : (l.map Prod.fst).Nodup) :
    lastChange keyspace key (l.map fun (k, v) => (keyspace, k, v.value)) = (lookupKey key l).map (·.value) := by
  induction l with
  | nil => rfl
  | cons e l ih =>
    obtain ⟨k, v⟩ := e
    rw [List.map_cons, List.nodup_cons] at hl
    rw [List.map_cons, lastChange_cons, ih hl.2, lookupKey_cons]
    by_cases hk : k = key
    · subst hk
      simp [lookupKey_eq_none.mpr hl.1]
    · simp [hk]

theorem lastChange_top (l : List (Bytes × OverlayedValue)) (storageKey : Bytes) :
    lastChange (some storageKey) key (l.map fun (k, v) => ((none : Option Bytes), k, v.value)) = none :=
  lastChange_eq_none fun c hc => by
    obtain ⟨⟨k, v⟩, -, rfl⟩ := List.mem_map.mp hc
    exact (Option.some_ne_none _).symm

theorem lastChange_children (l : List (Bytes × HashMap Bytes OverlayedValue)) :
    lastChange none key
      (l.flatMap fun (keyspace, map) => map.toList.map fun (k, v) => (some keyspace, k, v.value)) = none :=
  lastChange_eq_none fun c hc => by
    obtain ⟨⟨ks, m⟩, -, hc⟩ := List.mem_flatMap.mp hc
    obtain ⟨⟨k, v⟩, -, rfl⟩ := List.mem_map.mp hc
    exact Option.some_ne_none _

/-- In the changes listed from the child maps, under distinct child storage keys, the
last change of a key in `storageKey`'s keyspace is the entry of `storageKey`'s map. -/
theorem lastChange_flatMap (storageKey : Bytes) (l : List (Bytes × HashMap Bytes OverlayedValue))
    (hl : (l.map Prod.fst).Nodup) :
    lastChange (some storageKey) key
        (l.flatMap fun (keyspace, map) => map.toList.map fun (k, v) => (some keyspace, k, v.value)) =
      ((lookupKey storageKey l).bind (·.get? key)).map (·.value) := by
  induction l with
  | nil => rfl
  | cons e l ih =>
    obtain ⟨ks, m⟩ := e
    rw [List.map_cons, List.nodup_cons] at hl
    rw [List.flatMap_cons, lastChange_append, ih hl.2, lookupKey_cons]
    by_cases hks : ks = storageKey
    · subst hks
      rw [lookupKey_eq_none.mpr hl.1, if_pos rfl, lastChange_map m.toList m.nodup]
      rfl
    · have hne : ∀ c ∈ m.toList.map (fun (k, v) => (some ks, k, v.value)), c.1 ≠ some storageKey := by
        intro c hc
        obtain ⟨⟨k, v⟩, -, rfl⟩ := List.mem_map.mp hc
        exact fun h => hks (Option.some.inj h)
      rw [lastChange_eq_none hne, Option.or_none, if_neg hks]

end LastChange

namespace TestExternalities

variable {B : Type} {ops : InMemoryOps B}

theorem overlay_storage_eq (c : OverlayedChanges) (key : Bytes) :
    c.storage key = ((c.prospective.top.get? key).map (·.value)).or ((c.committed.top.get? key).map (·.value)) := by
  unfold OverlayedChanges.storage
  split <;> simp [*]

theorem overlay_childStorage_eq (c : OverlayedChanges) (storageKey key : Bytes) :
    c.childStorage storageKey key =
      (((c.prospective.children.get? storageKey).bind (·.get? key)).map (·.value)).or
        (((c.committed.children.get? storageKey).bind (·.get? key)).map (·.value)) := by
  unfold OverlayedChanges.childStorage
  split <;> simp [*]

/-- The changes `commit_all` hands to `update` decide a top key exactly as the overlay
does. -/
theorem lastChange_commitAll_top (t : TestExternalities B) (key : Bytes) :
    lastChange none key
        ((t.overlay.committed.top.toList ++ t.overlay.prospective.top.toList).map
            (fun (k, v) => ((none : Option Bytes), k, v.value)) ++
          (t.overlay.committed.children.toList ++ t.overlay.prospective.children.toList).flatMap
            fun (keyspace, map) => map.toList.map fun (k, v) => (some keyspace, k, v.value)) =
      t.overlay.storage key := by
  rw [lastChange_append, lastChange_children, Option.none_or, List.map_append, lastChange_append,
    lastChange_map _ t.overlay.prospective.top.nodup, lastChange_map _ t.overlay.committed.top.nodup,
    overlay_storage_eq]
  rfl

theorem lastChange_commitAll_child (t : TestExternalities B) (storageKey key : Bytes) :
    lastChange (some storageKey) key
        ((t.overlay.committed.top.toList ++ t.overlay.prospective.top.toList).map
            (fun (k, v) => ((none : Option Bytes), k, v.value)) ++
          (t.overlay.committed.children.toList ++ t.overlay.prospective.children.toList).flatMap
            fun (keyspace, map) => map.toList.map fun (k, v) => (some keyspace, k, v.value)) =
      t.overlay.childStorage storageKey key := by
  rw [lastChange_append, lastChange_top, Option.or_none, List.flatMap_append, lastChange_append,
    lastChange_flatMap _ _ t.overlay.prospective.children.nodup,
    lastChange_flatMap _ _ t.overlay.committed.children.nodup, overlay_childStorage_eq]
  rfl

variable (laws : ops.Laws) (t : TestExternalities B)
include laws

theorem storage_eq_commitAll (key : Bytes) :
    t.storage ops key = (Outcome.ofExcept (ops.storage (t.commitAll ops) key)).expect := by
  rw [storage, commitAll, laws.storage_update, lastChange_commitAll_top]
  split <;> rfl

theorem childStorage_eq_commitAll (storageKey key : Bytes) :
    t.childStorage ops storageKey key =
      (Outcome.ofExcept (ops.childStorage (t.commitAll ops) storageKey key)).expect := by
  rw [childStorage, commitAll, laws.childStorage_update, lastChange_commitAll_child]
  split <;> rfl

/-- `commit_all` loses no change and lets none shadow a later one: its backend answers
every `storage` and `child_storage` read as the externalities do, both layers of the
overlay and the backend below them included, and panics where the externalities'
read panics. -/
theorem commitAll_reads_agree :
    (∀ key, (Outcome.ofExcept (ops.storage (t.commitAll ops) key)).expect = t.storage ops key) ∧
      ∀ storageKey key, (Outcome.ofExcept (ops.childStorage (t.commitAll ops) storageKey key)).expect =
        t.childStorage ops storageKey key :=
  ⟨fun key => (storage_eq_commitAll laws t key).symm,
    fun storageKey key => (childStorage_eq_commitAll laws t storageKey key).symm⟩

/-- Two test externalities that compare equal answer every read alike: `PartialEq`
sees the data, as its comment says, though not the split into layers. -/
theorem storage_eq_of_eq [DecidableEq B] {t₁ t₂ : TestExternalities B} (h : eq ops t₁ t₂ = true)
    (key : Bytes) : t₁.storage ops key = t₂.storage ops key := by
  rw [storage_eq_commitAll laws, storage_eq_commitAll laws, of_decide_eq_true h]

end TestExternalities

def functionBackend : InMemoryOps (Option Bytes → Bytes → Option Bytes) where
  storage b key := .ok (b none key)
  childStorage b storageKey key := .ok (b (some storageKey) key)
  update b changes := changes.foldl (fun b (ks, k, v) => Function.update b ks (Function.update (b ks) k v)) b

theorem functionBackend_read (changes : List Change) :
    ∀ (b : Option Bytes → Bytes → Option Bytes) (keyspace : Option Bytes) (key : Bytes),
      functionBackend.update b changes keyspace key = (lastChange keyspace key changes).getD (b keyspace key) := by
  induction changes with
  | nil => intro b ks k; rfl
  | cons c changes ih =>
    obtain ⟨ks, k, v⟩ := c
    intro b keyspace key
    rw [lastChange_cons, show functionBackend.update b ((ks, k, v) :: changes) =
      functionBackend.update (Function.update b ks (Function.update (b ks) k v)) changes from rfl, ih]
    cases lastChange keyspace key changes with
    | some w => rfl
    | none =>
      by_cases h : ks = keyspace ∧ k = key
      · obtain ⟨rfl, rfl⟩ := h
        simp
      · rw [if_neg h]
        by_cases hks : ks = keyspace
        · subst hks
          have hk : k ≠ key := fun hk => h ⟨rfl, hk⟩
          simp [Function.update_noteq hk.symm]
        · simp [Function.update_noteq (Ne.symm hks)]

theorem functionBackend_laws : functionBackend.Laws where
  storage_update b changes key := by
    show Except.ok _ = _
    rw [functionBackend_read]
    cases lastChange none key changes <;> rfl
  childStorage_update b changes storageKey key := by
    show Except.ok _ = _
    rw [functionBackend_read]
    cases lastChange (some storageKey) key changes <;> rfl

def layeredExternalities : TestExternalities (Option Bytes → Bytes → Option Bytes) :=
  ⟨⟨⟨⟨[([1], ⟨some [4], none⟩)], by decide⟩, ⟨[], List.nodup_nil⟩⟩, ⟨⟨[([1], ⟨none, none⟩)], by decide⟩,
    ⟨[([9], ⟨[([2], ⟨some [3], none⟩)], by decide⟩)], by decide⟩⟩, none⟩,
    fun _ _ => some [0]⟩

theorem commitAll_reads_agree_layered :
    functionBackend.Laws ∧
      ((∀ key, (Outcome.ofExcept (functionBackend.storage (layeredExternalities.commitAll functionBackend) key)).expect =
          layeredExternalities.storage functionBackend key) ∧
        ∀ storageKey key,
          (Outcome.ofExcept
              (functionBackend.childStorage (layeredExternalities.commitAll functionBackend) storageKey key)).expect =
            layeredExternalities.childStorage functionBackend storageKey key) :=
  ⟨functionBackend_laws, TestExternalities.commitAll_reads_agree functionBackend_laws layeredExternalities⟩

end Substrate.StateMachine
