import Substrate.Basic
import Mathlib.Data.List.Nodup

/-! The collections the code folds into and iterates over. A `BTreeMap` keeps its
entries in ascending key order, which is the order its iterator yields. A `HashMap`
has distinct keys, and the model leaves its enumeration order open: a randomly
seeded hasher picks a different order on each node. -/
namespace Substrate

section Lookup

variable {K V : Type} [DecidableEq K]

/-- The value of the first entry with key `k`. -/
def lookupKey (k : K) : List (K × V) → Option V
  | [] => none
  | (k', v) :: rest => if k' = k then some v else lookupKey k rest

@[simp] theorem lookupKey_nil (k : K) : lookupKey k ([] : List (K × V)) = none := rfl

theorem lookupKey_cons (k k' : K) (v : V) (rest : List (K × V)) :
    lookupKey k ((k', v) :: rest) = if k' = k then some v else lookupKey k rest := rfl

theorem lookupKey_eq_none {k : K} {l : List (K × V)} :
    lookupKey k l = none ↔ k ∉ l.map Prod.fst := by
  induction l with
  | nil => simp
  | cons e rest ih =>
    obtain ⟨k', v⟩ := e
    rw [lookupKey_cons, List.map_cons, List.mem_cons, not_or, ← ih]
    by_cases h : k' = k
    · simp [h]
    · simp [h, Ne.symm h]

theorem mem_of_lookupKey {k : K} {v : V} {l : List (K × V)} (h : lookupKey k l = some v) :
    (k, v) ∈ l := by
  induction l with
  | nil => cases h
  | cons e rest ih =>
    obtain ⟨k', v'⟩ := e
    rw [lookupKey_cons] at h
    split_ifs at h with hk
    · cases h; subst hk; exact List.mem_cons_self _ _
    · exact List.mem_cons_of_mem _ (ih h)

theorem lookupKey_of_mem {k : K} {v : V} {l : List (K × V)} (hl : (l.map Prod.fst).Nodup)
    (h : (k, v) ∈ l) : lookupKey k l = some v := by
  induction l with
  | nil => cases h
  | cons e rest ih =>
    obtain ⟨k', v'⟩ := e
    rw [List.map_cons, List.nodup_cons] at hl
    rcases List.mem_cons.mp h with h | h
    · cases h; simp [lookupKey_cons]
    · have hne : k' ≠ k := by
        rintro rfl
        exact hl.1 (List.mem_map.mpr ⟨_, h, rfl⟩)
      rw [lookupKey_cons, if_neg hne, ih hl.2 h]

theorem lookupKey_of_mem_iff {k : K} {v : V} {l : List (K × V)} (hl : (l.map Prod.fst).Nodup) :
    lookupKey k l = some v ↔ (k, v) ∈ l :=
  ⟨mem_of_lookupKey, lookupKey_of_mem hl⟩

/-- The values recorded for `k`, in list order. -/
def valuesOf (k : K) (l : List (K × V)) : List V :=
  l.filterMap fun e => if e.1 = k then some e.2 else none

theorem lookupKey_map_snd {W : Type} (k : K) (f : V → W) (l : List (K × V)) :
    lookupKey k (l.map fun e => (e.1, f e.2)) = (lookupKey k l).map f := by
  induction l with
  | nil => rfl
  | cons e rest ih =>
    obtain ⟨k', v⟩ := e
    by_cases h : k' = k <;> simp [lookupKey_cons, h, ih]

@[simp] theorem valuesOf_nil (k : K) : valuesOf k ([] : List (K × V)) = [] := rfl

theorem valuesOf_append (k : K) (l₁ l₂ : List (K × V)) :
    valuesOf k (l₁ ++ l₂) = valuesOf k l₁ ++ valuesOf k l₂ :=
  List.filterMap_append ..

theorem valuesOf_cons (k k' : K) (v : V) (rest : List (K × V)) :
    valuesOf k ((k', v) :: rest) = if k' = k then v :: valuesOf k rest else valuesOf k rest := by
  unfold valuesOf
  by_cases h : k' = k <;> simp [h]

theorem mem_keys_iff_valuesOf {k : K} {l : List (K × V)} :
    k ∈ l.map Prod.fst ↔ valuesOf k l ≠ [] := by
  induction l with
  | nil => simp
  | cons e rest ih =>
    obtain ⟨k', v⟩ := e
    rw [valuesOf_cons, List.map_cons, List.mem_cons, ih]
    by_cases h : k' = k
    · simp [h]
    · simp [h, Ne.symm h]

theorem valuesOf_of_nodup {k : K} {l : List (K × V)} (hl : (l.map Prod.fst).Nodup) :
    valuesOf k l = (lookupKey k l).toList := by
  induction l with
  | nil => rfl
  | cons e rest ih =>
    obtain ⟨k', v⟩ := e
    rw [List.map_cons, List.nodup_cons] at hl
    rw [valuesOf_cons, lookupKey_cons, ih hl.2]
    split_ifs with hk
    · subst hk
      simp [lookupKey_eq_none.mpr hl.1]
    · rfl

end Lookup

section BTree

variable {K V : Type} [LinearOrder K]

/-- Sorted insertion that replaces an entry with the same key. -/
def insertSorted (k : K) (v : V) : List (K × V) → List (K × V)
  | [] => [(k, v)]
  | (k', v') :: rest =>
    if k < k' then (k, v) :: (k', v') :: rest
    else if k = k' then (k, v) :: rest
    else (k', v') :: insertSorted k v rest

theorem mem_insertSorted {k : K} {v : V} {l : List (K × V)} {e : K × V}
    (h : e ∈ insertSorted k v l) : e = (k, v) ∨ e ∈ l := by
  induction l with
  | nil => simpa [insertSorted] using h
  | cons x rest ih =>
    obtain ⟨k', v'⟩ := x
    simp only [insertSorted] at h
    split_ifs at h
    · exact List.mem_cons.mp h
    · rcases List.mem_cons.mp h with h | h
      · exact .inl h
      · exact .inr (List.mem_cons_of_mem _ h)
    · rcases List.mem_cons.mp h with rfl | h
      · exact .inr (List.mem_cons_self _ _)
      · exact (ih h).imp_right (List.mem_cons_of_mem _)

theorem pairwise_insertSorted {k : K} {v : V} {l : List (K × V)}
    (hl : l.Pairwise (fun a b => a.1 < b.1)) :
    (insertSorted k v l).Pairwise (fun a b => a.1 < b.1) := by
  induction l with
  | nil => simp [insertSorted]
  | cons x rest ih =>
    obtain ⟨k', v'⟩ := x
    rw [List.pairwise_cons] at hl
    simp only [insertSorted]
    split_ifs with hlt heq
    · refine List.Pairwise.cons ?_ (List.Pairwise.cons hl.1 hl.2)
      intro e he
      rcases List.mem_cons.mp he with rfl | he
      · exact hlt
      · exact hlt.trans (hl.1 e he)
    · subst heq
      exact List.Pairwise.cons hl.1 hl.2
    · refine List.Pairwise.cons ?_ (ih hl.2)
      intro e he
      rcases mem_insertSorted he with rfl | he
      · exact lt_of_le_of_ne (not_lt.mp hlt) (Ne.symm heq)
      · exact hl.1 e he

theorem lookupKey_insertSorted (j k : K) (v : V) (l : List (K × V)) :
    lookupKey j (insertSorted k v l) = if k = j then some v else lookupKey j l := by
  induction l with
  | nil => rfl
  | cons x rest ih =>
    obtain ⟨k', v'⟩ := x
    by_cases hlt : k < k'
    · simp only [insertSorted, if_pos hlt]; rfl
    by_cases heq : k = k'
    · subst heq
      simp only [insertSorted, if_neg hlt, if_true]
      by_cases hj : k = j <;> simp [lookupKey_cons, hj]
    · simp only [insertSorted, if_neg hlt, if_neg heq]
      rw [lookupKey_cons, lookupKey_cons, ih]
      by_cases hj : k = j
      · subst hj; simp [Ne.symm heq]
      · simp [hj]

theorem lookupKey_filter_ne (j k : K) (l : List (K × V)) :
    lookupKey j (l.filter fun e => e.1 ≠ k) = if k = j then none else lookupKey j l := by
  induction l with
  | nil => simp
  | cons x rest ih =>
    obtain ⟨k', v'⟩ := x
    by_cases h : k' = k
    · subst h
      rw [List.filter_cons_of_neg (by simp), ih]
      by_cases hj : k' = j <;> simp [lookupKey_cons, hj]
    · rw [List.filter_cons_of_pos (by simpa using h), lookupKey_cons, lookupKey_cons, ih]
      by_cases hj : k = j
      · subst hj; simp [h]
      · simp [hj]

theorem lookupKey_of_lt {j : K} {l : List (K × V)} (h : ∀ e ∈ l, j < e.1) :
    lookupKey j l = (none : Option V) :=
  lookupKey_eq_none.mpr fun hj => by
    obtain ⟨e, he, rfl⟩ := List.mem_map.mp hj
    exact lt_irrefl _ (h e he)

theorem eq_of_lookupKey {l₁ l₂ : List (K × V)} (h₁ : l₁.Pairwise (fun a b => a.1 < b.1))
    (h₂ : l₂.Pairwise (fun a b => a.1 < b.1)) (h : ∀ k, lookupKey k l₁ = lookupKey k l₂) :
    l₁ = l₂ := by
  induction l₁ generalizing l₂ with
  | nil =>
    cases l₂ with
    | nil => rfl
    | cons x _ =>
      obtain ⟨k, v⟩ := x
      simpa [lookupKey_cons] using h k
  | cons x r₁ ih =>
    obtain ⟨k₁, v₁⟩ := x
    cases l₂ with
    | nil => simpa [lookupKey_cons] using h k₁
    | cons y r₂ =>
      obtain ⟨k₂, v₂⟩ := y
      rw [List.pairwise_cons] at h₁ h₂
      have hk : k₁ = k₂ := by
        rcases lt_trichotomy k₁ k₂ with hlt | heq | hgt
        · have := h k₁
          rw [lookupKey_cons, lookupKey_cons, if_pos rfl, if_neg hlt.ne',
            lookupKey_of_lt fun e he => hlt.trans (h₂.1 e he)] at this
          cases this
        · exact heq
        · have := h k₂
          rw [lookupKey_cons, lookupKey_cons, if_pos rfl, if_neg hgt.ne',
            lookupKey_of_lt fun e he => hgt.trans (h₁.1 e he)] at this
          cases this
      subst hk
      have hv : v₁ = v₂ := by simpa [lookupKey_cons] using h k₁
      subst hv
      refine congrArg _ (ih h₁.2 h₂.2 fun j => ?_)
      by_cases hj : k₁ = j
      · subst hj
        rw [lookupKey_of_lt h₁.1, lookupKey_of_lt h₂.1]
      · simpa [lookupKey_cons, hj] using h j

end BTree

/-- `BTreeMap<K, V>`: entries in strictly ascending key order. -/
structure BTreeMap (K V : Type) [LinearOrder K] where
  toList : List (K × V)
  sorted : toList.Pairwise (fun a b => a.1 < b.1)

namespace BTreeMap

variable {K V : Type} [LinearOrder K]

def empty : BTreeMap K V := ⟨[], .nil⟩

def get? (m : BTreeMap K V) (k : K) : Option V := lookupKey k m.toList

/-- `insert`, and also the write through an `Entry`. -/
def insert (m : BTreeMap K V) (k : K) (v : V) : BTreeMap K V :=
  ⟨insertSorted k v m.toList, pairwise_insertSorted m.sorted⟩

def erase (m : BTreeMap K V) (k : K) : BTreeMap K V :=
  ⟨m.toList.filter (fun e => e.1 ≠ k), m.sorted.filter _⟩

def keys (m : BTreeMap K V) : List K := m.toList.map Prod.fst

def map {W : Type} (m : BTreeMap K V) (f : V → W) : BTreeMap K W :=
  ⟨m.toList.map fun e => (e.1, f e.2), List.pairwise_map.mpr (m.sorted.imp id)⟩

@[simp] theorem get?_map {W : Type} (m : BTreeMap K V) (f : V → W) (k : K) :
    (m.map f).get? k = (m.get? k).map f :=
  lookupKey_map_snd k f m.toList

@[simp] theorem get?_empty (k : K) : (empty : BTreeMap K V).get? k = none := rfl

@[simp] theorem get?_insert (m : BTreeMap K V) (k j : K) (v : V) :
    (m.insert k v).get? j = if k = j then some v else m.get? j :=
  lookupKey_insertSorted j k v m.toList

@[simp] theorem get?_erase (m : BTreeMap K V) (k j : K) :
    (m.erase k).get? j = if k = j then none else m.get? j :=
  lookupKey_filter_ne j k m.toList

theorem get?_eq_lookupKey [DecidableEq K] (m : BTreeMap K V) (k : K) : m.get? k = lookupKey k m.toList := by
  unfold get?
  congr

theorem keys_nodup (m : BTreeMap K V) : m.keys.Nodup :=
  (List.pairwise_map.mpr m.sorted).imp ne_of_lt

theorem get?_eq_some_iff {m : BTreeMap K V} {k : K} {v : V} :
    m.get? k = some v ↔ (k, v) ∈ m.toList :=
  ⟨mem_of_lookupKey, lookupKey_of_mem m.keys_nodup⟩

theorem mem_keys {m : BTreeMap K V} {k : K} : k ∈ m.keys ↔ (m.get? k).isSome := by
  rw [← not_iff_not, Option.not_isSome_iff_eq_none]
  exact lookupKey_eq_none.symm

theorem mem_keys_insert {m : BTreeMap K V} {k j : K} {v : V} :
    j ∈ (m.insert k v).keys ↔ j = k ∨ j ∈ m.keys := by
  rw [mem_keys, mem_keys, get?_insert]
  by_cases h : k = j
  · subst h; simp
  · simp [h, Ne.symm h]

@[simp] theorem keys_map {W : Type} (m : BTreeMap K V) (f : V → W) : (m.map f).keys = m.keys := by
  simp [keys, map, Function.comp_def]

theorem get?_foldl_erase {ι : Type} (g : ι → K) (l : List ι) (m : BTreeMap K V) (k : K) :
    (l.foldl (fun m i => m.erase (g i)) m).get? k = if k ∈ l.map g then none else m.get? k := by
  induction l generalizing m with
  | nil => simp
  | cons i rest ih =>
    rw [List.foldl_cons, ih, get?_erase, List.map_cons]
    by_cases h : g i = k
    · simp [h]
    · simp [h, Ne.symm h]

@[ext] theorem ext {m₁ m₂ : BTreeMap K V} (h : ∀ k, m₁.get? k = m₂.get? k) : m₁ = m₂ := by
  obtain ⟨l₁, s₁⟩ := m₁
  obtain ⟨l₂, s₂⟩ := m₂
  have : l₁ = l₂ := eq_of_lookupKey s₁ s₂ h
  subst this
  rfl

end BTreeMap

/-- `BTreeSet<K>`: a `BTreeMap` with unit values; `keys` is its iterator. -/
abbrev BTreeSet (K : Type) [LinearOrder K] := BTreeMap K Unit

def BTreeSet.ofList {K : Type} [LinearOrder K] (l : List K) : BTreeSet K :=
  l.foldl (fun s k => s.insert k ()) (BTreeMap.empty : BTreeSet K)

theorem BTreeSet.mem_ofList {K : Type} [LinearOrder K] {l : List K} {k : K} :
    k ∈ (BTreeSet.ofList l).keys ↔ k ∈ l := by
  have h : ∀ (s : BTreeSet K),
      k ∈ (l.foldl (fun s k => s.insert k ()) s).keys ↔ k ∈ s.keys ∨ k ∈ l := by
    induction l with
    | nil => simp
    | cons x rest ih =>
      intro s
      rw [List.foldl_cons, ih, BTreeMap.mem_keys, BTreeMap.mem_keys, BTreeMap.get?_insert,
        List.mem_cons]
      by_cases hx : x = k
      · subst hx; simp
      · simp [hx, Ne.symm hx]
  rw [BTreeSet.ofList, h]
  simp [BTreeMap.keys, BTreeMap.empty]

theorem BTreeSet.eq_of_mem_iff {K : Type} [LinearOrder K] {s₁ s₂ : BTreeSet K}
    (h : ∀ k, k ∈ s₁.keys ↔ k ∈ s₂.keys) : s₁ = s₂ := by
  refine BTreeMap.ext fun k => ?_
  have := h k
  rw [BTreeMap.mem_keys, BTreeMap.mem_keys] at this
  cases h₁ : s₁.get? k <;> cases h₂ : s₂.get? k <;> simp_all

/-- `HashMap<K, V>`: distinct keys, enumerated in an order the model does not fix. -/
structure HashMap (K V : Type) [DecidableEq K] where
  toList : List (K × V)
  nodup : (toList.map Prod.fst).Nodup

namespace HashMap

variable {K V W : Type} [DecidableEq K]

def get? (m : HashMap K V) (k : K) : Option V := lookupKey k m.toList

def keys (m : HashMap K V) : List K := m.toList.map Prod.fst

/-- Two maps hold entries related by `R` under the same keys, whatever order each
enumerates them in. -/
def Rel (R : V → W → Prop) (m₁ : HashMap K V) (m₂ : HashMap K W) : Prop :=
  ∀ k, Option.Rel R (m₁.get? k) (m₂.get? k)

theorem valuesOf_toList (m : HashMap K V) (k : K) : valuesOf k m.toList = (m.get? k).toList :=
  valuesOf_of_nodup m.nodup

theorem mem_keys {m : HashMap K V} {k : K} : k ∈ m.keys ↔ (m.get? k).isSome := by
  rw [← not_iff_not, Option.not_isSome_iff_eq_none]
  exact lookupKey_eq_none.symm

theorem mem_keys_congr {R : V → W → Prop} {m₁ : HashMap K V} {m₂ : HashMap K W} (h : m₁.Rel R m₂)
    (k : K) : k ∈ m₁.keys ↔ k ∈ m₂.keys := by
  rw [mem_keys, mem_keys]
  match m₁.get? k, m₂.get? k, h k with
  | _, _, .some _ => rfl
  | _, _, .none => rfl

theorem get?_eq_of_rel_eq {m₁ m₂ : HashMap K V} (h : m₁.Rel Eq m₂) (k : K) : m₁.get? k = m₂.get? k :=
  match m₁.get? k, m₂.get? k, h k with
  | _, _, .some rfl => rfl
  | _, _, .none => rfl

theorem bind_get?_eq_of_rel {K' : Type} [DecidableEq K'] {m₁ m₂ : HashMap K (HashMap K' V)}
    (h : m₁.Rel (Rel Eq) m₂) (k : K) (k' : K') :
    (m₁.get? k).bind (·.get? k') = (m₂.get? k).bind (·.get? k') :=
  match m₁.get? k, m₂.get? k, h k with
  | _, _, .some hc => get?_eq_of_rel_eq hc k'
  | _, _, .none => rfl

theorem rel_eq_of_perm {m₁ m₂ : HashMap K V} (h : m₁.toList.Perm m₂.toList) : m₁.Rel Eq m₂ := by
  intro k
  have : m₁.get? k = m₂.get? k := Option.ext fun v => by
    rw [Option.mem_def, Option.mem_def, get?, get?, lookupKey_of_mem_iff m₁.nodup,
      lookupKey_of_mem_iff m₂.nodup, h.mem_iff]
  rw [this]
  cases m₂.get? k
  · exact .none
  · exact .some rfl

end HashMap

end Substrate
