import Substrate.ChangesTrie.DigestInput

/-! The child streams of `prepare_input`. The extrinsics part gives one stream for
each child storage key of either overlay layer, the digest part one for each child
its scans found; the two loops of `prepare_input` attach each child's digest records
to its extrinsic records and then list the children found only by the digest. -/
namespace Substrate.ChangesTrie

open Codec

variable {w : Nat}

theorem foldlM_insertChild {V : Type} {f : Bytes → Except String V} {block : BlockNumber w} :
    ∀ {l : List Bytes} {acc acc' : BTreeMap (ChildIndex w) V},
      l.foldlM (fun acc sk => (f sk).map fun v => acc.insert ⟨block, sk⟩ v) acc = .ok acc' →
        (∀ c, c ∈ acc'.keys ↔ c ∈ acc.keys ∨ (c.block = block ∧ c.storageKey ∈ l)) ∧
        ∀ c s, acc'.get? c = some s → acc.get? c = some s ∨ f c.storageKey = .ok s
  | [], _, _, h => by
    cases h
    exact ⟨fun c => by simp, fun _ _ h => .inl h⟩
  | sk :: rest, acc, acc', h => by
    rw [List.foldlM_cons, except_bind_eq_ok] at h
    obtain ⟨acc₁, h₁, h₂⟩ := h
    obtain ⟨v, hv, rfl⟩ := except_map_eq_ok.mp h₁
    obtain ⟨ihk, ihv⟩ := foldlM_insertChild h₂
    refine ⟨fun ⟨cb, csk⟩ => ?_, fun c s hs => ?_⟩
    · simp only [ihk, BTreeMap.mem_keys_insert, ChildIndex.mk.injEq, List.mem_cons, and_or_left,
        or_assoc, or_left_comm]
    · rcases ihv c s hs with hs | hs
      · rw [BTreeMap.get?_insert] at hs
        split_ifs at hs with hc
        · cases hs
          exact .inr (hc ▸ hv)
        · exact .inl hs
      · exact .inr hs

variable {backend : Backend} {block : BlockNumber w} {o : OverlayedChanges}

/-- The extrinsics part: the top records, and for each child storage key of either
layer the child of the block with that key's records. -/
theorem prepareExtrinsicsInput_eq_ok {top : List (InputPair w)}
    {children : BTreeMap (ChildIndex w) (List (InputPair w))}
    (h : prepareExtrinsicsInput backend block o = .ok (top, children)) :
    prepareExtrinsicsInputInner backend block o none = .ok top ∧
      (∀ c, c ∈ children.keys ↔ c.block = block ∧
        (c.storageKey ∈ o.prospective.children.keys ∨ c.storageKey ∈ o.committed.children.keys)) ∧
      ∀ c s, children.get? c = some s →
        prepareExtrinsicsInputInner backend block o (some c.storageKey) = .ok s := by
  simp only [prepareExtrinsicsInput, except_bind_eq_ok] at h
  obtain ⟨ch, hch, top', htop, he⟩ := h
  cases he
  obtain ⟨hk, hv⟩ := foldlM_insertChild hch
  refine ⟨htop, fun c => ?_, fun c s hs => (hv c s hs).resolve_left (by simp)⟩
  rw [hk, BTreeSet.mem_ofList, List.mem_append]
  simp [BTreeMap.keys, BTreeMap.empty]

theorem prepareExtrinsicsInputInner_of_not_mem {sk : Bytes}
    (hp : sk ∉ o.prospective.children.keys) (hc : sk ∉ o.committed.children.keys) :
    prepareExtrinsicsInputInner backend block o (some sk) = .ok [] := by
  rw [HashMap.mem_keys, Option.not_isSome_iff_eq_none] at hp hc
  simp only [prepareExtrinsicsInputInner, extrinsicsEntries, hp, hc]
  rfl

section Merge

variable {E D : BTreeMap (ChildIndex w) (List (InputPair w))}

theorem foldl_attachDigest {l : List (ChildIndex w × List (InputPair w))}
    (hl : (l.map Prod.fst).Nodup) (a₁ : List (ChildIndex w × List (InputPair w)))
    (a₂ : BTreeMap (ChildIndex w) (List (InputPair w))) :
    l.foldl (fun acc e => (acc.1 ++ [(e.1, e.2 ++ (acc.2.get? e.1).getD [])], acc.2.erase e.1))
        (a₁, a₂) =
      (a₁ ++ l.map fun e => (e.1, e.2 ++ (a₂.get? e.1).getD []),
        l.foldl (fun m e => m.erase e.1) a₂) := by
  induction l generalizing a₁ a₂ with
  | nil => simp
  | cons e rest ih =>
    rw [List.map_cons, List.nodup_cons] at hl
    rw [List.foldl_cons, ih hl.2, List.foldl_cons, List.map_cons, List.append_assoc,
      List.singleton_append]
    congr 3
    refine List.map_congr_left fun e' he' => ?_
    have : e.1 ≠ e'.1 := fun h => hl.1 (h ▸ List.mem_map_of_mem _ he')
    rw [BTreeMap.get?_erase, if_neg this]

/-- The merge as two lists: the extrinsic children in key order, each with its digest
records, then the children found only by the digest. -/
theorem mergeChildren_eq :
    mergeChildren E D =
      E.toList.map (fun e => (e.1, e.2 ++ (D.get? e.1).getD [])) ++
        (E.toList.foldl (fun m e => m.erase e.1) D).toList := by
  rw [mergeChildren, foldl_attachDigest E.keys_nodup, List.nil_append]

/-- A child's stream after the merge is its extrinsic records followed by its digest
records, and every child of either part is there. -/
theorem mem_mergeChildren {c : ChildIndex w} {s : List (InputPair w)} :
    (c, s) ∈ mergeChildren E D ↔
      (c ∈ E.keys ∨ c ∈ D.keys) ∧ s = (E.get? c).getD [] ++ (D.get? c).getD [] := by
  have hleft : (∃ e ∈ E.toList, (e.1, e.2 ++ (D.get? e.1).getD []) = (c, s)) ↔
      ∃ v, E.get? c = some v ∧ s = v ++ (D.get? c).getD [] := by
    constructor
    · rintro ⟨⟨c', v⟩, he, hcs⟩
      cases hcs
      exact ⟨v, BTreeMap.get?_eq_some_iff.mpr he, rfl⟩
    · rintro ⟨v, hv, rfl⟩
      exact ⟨(c, v), BTreeMap.get?_eq_some_iff.mp hv, rfl⟩
  have hkeys : E.toList.map Prod.fst = E.keys := rfl
  rw [mergeChildren_eq, List.mem_append, List.mem_map, hleft, ← BTreeMap.get?_eq_some_iff,
    BTreeMap.get?_foldl_erase, hkeys]
  simp only [BTreeMap.mem_keys]
  cases E.get? c <;> cases D.get? c <;> simp [eq_comm]

theorem mergeChildren_nodup : ((mergeChildren E D).map Prod.fst).Nodup := by
  have hfst : (Prod.fst ∘ fun e : ChildIndex w × List (InputPair w) =>
      (e.1, e.2 ++ (D.get? e.1).getD [])) = Prod.fst := rfl
  rw [mergeChildren_eq, List.map_append, List.map_map, hfst]
  refine List.Nodup.append E.keys_nodup (BTreeMap.keys_nodup _) fun c hE hD => ?_
  have := BTreeMap.mem_keys.mp hD
  rw [BTreeMap.get?_foldl_erase, if_pos hE] at this
  cases this

theorem mem_keys_mergeChildren {c : ChildIndex w} :
    c ∈ (mergeChildren E D).map Prod.fst ↔ c ∈ E.keys ∨ c ∈ D.keys := by
  constructor
  · rintro hc
    obtain ⟨⟨c', s⟩, hcs, rfl⟩ := List.mem_map.mp hc
    exact (mem_mergeChildren.mp hcs).1
  · intro hc
    exact List.mem_map_of_mem Prod.fst (mem_mergeChildren.mpr ⟨hc, rfl⟩)

end Merge

section Prepare

variable {H : Hasher} {sched : DigestSchedule w} {storage : Storage w}
  {config : ConfigurationRange w} {parent : AnchorBlockId w}

/-- Inversion of `prepare_input`: both parts succeeded, the top stream is the
extrinsics part's followed by the digest part's, and the children are merged. -/
theorem prepareInput_eq_ok {top : List (InputPair w)}
    {children : List (ChildIndex w × List (InputPair w))} :
    prepareInput H sched backend storage config o parent = .ok (top, children) ↔
      ∃ e d, prepareExtrinsicsInput backend (parent.number + 1) o = .ok e ∧
        prepareDigestInput H sched parent config (parent.number + 1) storage = .ok d ∧
        e.1 ++ d.1 = top ∧ mergeChildren e.2 d.2 = children := by
  simp only [prepareInput, Outcome.bind_eq_ok, Outcome.ofExcept_eq_ok, Outcome.pure_eq,
    Outcome.ok.injEq, Prod.mk.injEq]
  constructor
  · rintro ⟨⟨et, ec⟩, he, ⟨dt, dc⟩, hd, h⟩
    exact ⟨_, _, he, hd, h⟩
  · rintro ⟨⟨et, ec⟩, ⟨dt, dc⟩, he, hd, h⟩
    exact ⟨_, he, _, hd, h⟩

theorem stream_of_mem_mergeChildren {et dt : List (InputPair w)}
    {ec dc : BTreeMap (ChildIndex w) (List (InputPair w))}
    (he : prepareExtrinsicsInput backend block o = .ok (et, ec))
    (hd : prepareDigestInput H sched parent config block storage = .ok (dt, dc))
    {c : ChildIndex w} {s : List (InputPair w)} (hcs : (c, s) ∈ mergeChildren ec dc) :
    c.block = block ∧ ∃ ext, prepareExtrinsicsInputInner backend block o (some c.storageKey) = .ok ext ∧
      s = ext ++ (dc.get? c).getD [] := by
  obtain ⟨-, hek, hev⟩ := prepareExtrinsicsInput_eq_ok he
  obtain ⟨hc, rfl⟩ := mem_mergeChildren.mp hcs
  have hblock : c.block = block := by
    rcases hc with hc | hc
    · exact ((hek c).mp hc).1
    · exact ((prepareDigestInput_children_keys hd c).mp hc).1
  refine ⟨hblock, ?_⟩
  cases hs : ec.get? c with
  | some s => exact ⟨s, hev c s hs, rfl⟩
  | none =>
    have hnot : ¬(c.storageKey ∈ o.prospective.children.keys ∨
        c.storageKey ∈ o.committed.children.keys) := fun hsk => by
      have := BTreeMap.mem_keys.mp ((hek c).mpr ⟨hblock, hsk⟩)
      rw [hs] at this
      cases this
    exact ⟨[], prepareExtrinsicsInputInner_of_not_mem (fun h => hnot (.inl h))
      (fun h => hnot (.inr h)), rfl⟩

/-- The child list of `prepare_input`: each child once, all of the block being built;
the children are those of either overlay layer and those the digest found; a child's
stream is its extrinsic records followed by its digest records, and no digest records
are left out. -/
theorem prepareInput_children {top : List (InputPair w)}
    {children : List (ChildIndex w × List (InputPair w))}
    (h : prepareInput H sched backend storage config o parent = .ok (top, children)) :
    (children.map Prod.fst).Nodup ∧
    (∀ c, c ∈ children.map Prod.fst ↔ c.block = parent.number + 1 ∧
      (c.storageKey ∈ o.prospective.children.keys ∨ c.storageKey ∈ o.committed.children.keys ∨
        FoundByDigest H storage parent (digestBlocks sched config (parent.number + 1))
          c.storageKey)) ∧
    ∃ digestTop digestChildren,
      prepareDigestInput H sched parent config (parent.number + 1) storage =
        .ok (digestTop, digestChildren) ∧
      (∀ c ∈ digestChildren.keys, c ∈ children.map Prod.fst) ∧
      ∀ c s, (c, s) ∈ children → ∃ ext,
        prepareExtrinsicsInputInner backend (parent.number + 1) o (some c.storageKey) = .ok ext ∧
        s = ext ++ (digestChildren.get? c).getD [] := by
  obtain ⟨⟨et, ec⟩, ⟨dt, dc⟩, he, hd, -, rfl⟩ := prepareInput_eq_ok.mp h
  refine ⟨mergeChildren_nodup, fun c => ?_, dt, dc, hd,
    fun c hc => mem_keys_mergeChildren.mpr (.inr hc),
    fun c s hcs => (stream_of_mem_mergeChildren he hd hcs).2⟩
  rw [mem_keys_mergeChildren, (prepareExtrinsicsInput_eq_ok he).2.1, prepareDigestInput_children_keys hd,
    ← and_or_left, or_assoc]

end Prepare

def zeroHasher : Hasher :=
  ⟨32, by decide, fun _ => List.replicate 32 0, fun _ => List.length_replicate _ _⟩

def blockZeroDigest : DigestSchedule 4 := ⟨fun _ _ => [0], fun _ _ _ => none⟩

def allKeysExist : Backend := ⟨fun _ => .ok true, fun _ _ => .ok true⟩

/-- A changes-trie storage whose trie of block 0 records child `[9]` under the zero
root, and whose trie under that root records that key `[3]` changed in extrinsic 0. -/
def childDigestStorage : Storage 4 where
  buildAnchor _ := .ok ⟨[], 0⟩
  root _ b := .ok (if b = 0 then some [1] else none)
  trie r := if r = [1] then [([3, 0, 0, 0, 0, 4, 9], 128 :: List.replicate 32 0)]
    else if r = List.replicate 32 0 then [([1, 0, 0, 0, 0, 4, 3], [4, 0, 0, 0, 0])] else []

def childOverlay : OverlayedChanges :=
  ⟨⟨⟨[], List.nodup_nil⟩,
      ⟨[([5], ⟨[([7], ⟨some [1], some (BTreeSet.ofList [0])⟩)], by decide⟩)], by decide⟩⟩,
    ⟨⟨[], List.nodup_nil⟩, ⟨[], List.nodup_nil⟩⟩, some ⟨4, 1⟩⟩

/-- The child streams of `childOverlay` over `childDigestStorage`: child `[5]` comes
from the overlay, child `[9]` only from the digest. -/
def overlayAndDigestChildren : List (ChildIndex 4 × List (InputPair 4)) :=
  [(⟨1, [5]⟩, [.extrinsicIndex ⟨1, [7]⟩ [0]]), (⟨1, [9]⟩, [.digestIndex ⟨1, [3]⟩ [0]])]

theorem prepareInput_children_overlay_and_digest :
    prepareInput zeroHasher blockZeroDigest allKeysExist childDigestStorage ⟨⟨4, 1⟩, 0, none⟩
        childOverlay ⟨[], 0⟩ = .ok ([], overlayAndDigestChildren) ∧
    (overlayAndDigestChildren.map Prod.fst).Nodup ∧
    (∀ c, c ∈ overlayAndDigestChildren.map Prod.fst ↔
        c.block = (⟨[], 0⟩ : AnchorBlockId 4).number + 1 ∧
        (c.storageKey ∈ childOverlay.prospective.children.keys ∨
          c.storageKey ∈ childOverlay.committed.children.keys ∨
          FoundByDigest zeroHasher childDigestStorage ⟨[], 0⟩
            (digestBlocks blockZeroDigest ⟨⟨4, 1⟩, 0, none⟩ ((⟨[], 0⟩ : AnchorBlockId 4).number + 1))
            c.storageKey)) ∧
    ∃ digestTop digestChildren,
      prepareDigestInput zeroHasher blockZeroDigest ⟨[], 0⟩ ⟨⟨4, 1⟩, 0, none⟩
          ((⟨[], 0⟩ : AnchorBlockId 4).number + 1) childDigestStorage =
        .ok (digestTop, digestChildren) ∧
      (∀ c ∈ digestChildren.keys, c ∈ overlayAndDigestChildren.map Prod.fst) ∧
      ∀ c s, (c, s) ∈ overlayAndDigestChildren →
        ∃ ext, prepareExtrinsicsInputInner allKeysExist ((⟨[], 0⟩ : AnchorBlockId 4).number + 1)
            childOverlay (some c.storageKey) = .ok ext ∧
          s = ext ++ (digestChildren.get? c).getD [] :=
  have h : prepareInput zeroHasher blockZeroDigest allKeysExist childDigestStorage
      ⟨⟨4, 1⟩, 0, none⟩ childOverlay ⟨[], 0⟩ = .ok ([], overlayAndDigestChildren) := by decide
  ⟨h, prepareInput_children h⟩

end Substrate.ChangesTrie
