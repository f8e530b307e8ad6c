import Mathlib.Data.List.Sort
import Substrate.Basic

/-! The slice and `Vec` operations of the standard library that the runtime code calls,
as the Rust of the code's time implements them: `binary_search_by` with its halving
loop, and `Vec::remove` and `Vec::insert` with their panics. The search is correct on
a slice sorted for its comparator; `binarySearchBy_insertion` is the one fact its
callers use. -/
namespace Substrate

variable {α : Type}

/-- The loop of `binary_search_by`: while more than one candidate is left, probe
`base + size / 2`, keep `base` when the probe is `Greater` and move to the probe
otherwise, and halve `size`. The probe is in range (`SearchInv`); out of range it
would read as not `Greater`. -/
def searchLoop (f : α → Ordering) (s : List α) (base size : Nat) : Nat :=
  if 1 < size then
    let half := size / 2
    let mid := base + half
    searchLoop f s (if s[mid]?.map f = some .gt then base else mid) (size - half)
  else base
termination_by size
decreasing_by omega

def binarySearchBy (s : List α) (f : α → Ordering) : Except Nat Nat :=
  if s.length = 0 then .error 0
  else
    let base := searchLoop f s 0 s.length
    match s[base]?.map f with
    | some .eq => .ok base
    | some .lt => .error (base + 1)
    | _ => .error base

def binarySearch [Ord α] (s : List α) (x : α) : Except Nat Nat :=
  binarySearchBy s fun p => compare p x

/-- `Vec::remove`: panics unless `index < len`. -/
def vecRemove (l : List α) (index : Nat) : Option (List α) :=
  if index < l.length then some (l.eraseIdx index) else none

/-- `Vec::insert`: the element goes at `index` and the rest shift right; panics
unless `index ≤ len`. -/
def vecInsert (l : List α) (index : Nat) (x : α) : Option (List α) :=
  if index ≤ l.length then some (l.take index ++ x :: l.drop index) else none

/-- `s` is sorted for the comparator `f`, as `binary_search_by` asks: along `s`, `f`
never falls from `Greater` and never rises to `Less`. -/
def SortedBy (f : α → Ordering) (s : List α) : Prop :=
  s.Pairwise fun a b => (f a = .gt → f b = .gt) ∧ (f b = .lt → f a = .lt)

/-- What the loop keeps: the window `[base, base + size)` is non-empty and inside
`s`, a `base` the loop moved probed not `Greater`, and past the window all is
`Greater`. -/
structure SearchInv (f : α → Ordering) (s : List α) (base size : Nat) : Prop where
  size_pos : 0 < size
  window_le : base + size ≤ s.length
  moved : ∀ h : base < s.length, 0 < base → f s[base] ≠ .gt
  above : ∀ j (h : j < s.length), base + size ≤ j → f s[j] = .gt

variable {f : α → Ordering} {s : List α}

theorem searchInv_start (h : 0 < s.length) : SearchInv f s 0 s.length :=
  ⟨h, by simp, fun _ h => absurd h (Nat.lt_irrefl 0), fun _ _ h₁ => by omega⟩

theorem searchInv_step (hs : SortedBy f s) {base size : Nat} (hi : SearchInv f s base size)
    (h1 : 1 < size) :
    SearchInv f s (if s[base + size / 2]?.map f = some .gt then base else base + size / 2)
      (size - size / 2) := by
  have hmid : base + size / 2 < s.length := by have := hi.window_le; omega
  simp only [List.getElem?_eq_getElem hmid, Option.map_some', Option.some.injEq]
  split
  case isTrue hgt =>
    refine ⟨by omega, by have := hi.window_le; omega, hi.moved, fun j hj hle => ?_⟩
    rcases Nat.lt_or_eq_of_le (show base + size / 2 ≤ j by omega) with hlt | rfl
    · exact (List.pairwise_iff_getElem.mp hs _ _ hmid hj hlt).1 hgt
    · exact hgt
  case isFalse hgt =>
    refine ⟨by omega, by have := hi.window_le; omega, fun _ _ => hgt, fun j hj hle => ?_⟩
    exact hi.above j hj (by omega)

theorem searchLoop_inv (hs : SortedBy f s) (base size : Nat) (hi : SearchInv f s base size) :
    SearchInv f s (searchLoop f s base size) 1 := by
  induction base, size using searchLoop.induct f s with
  | case1 base size h1 _ _ ih =>
    rw [searchLoop, if_pos h1]
    exact ih (searchInv_step hs hi h1)
  | case2 base size h1 =>
    rw [searchLoop, if_neg h1]
    obtain rfl : size = 1 := by have := hi.size_pos; omega
    exact hi

theorem binarySearchBy_ok {i : Nat} (h : binarySearchBy s f = .ok i) :
    ∃ h : i < s.length, f s[i] = .eq := by
  unfold binarySearchBy at h
  split at h
  · cases h
  · dsimp only at h
    split at h
    case h_1 heq =>
      cases h
      obtain ⟨hi, hx⟩ := List.getElem?_eq_some_iff.mp (Option.map_eq_some'.mp heq).choose_spec.1
      exact ⟨hi, hx ▸ (Option.map_eq_some'.mp heq).choose_spec.2⟩
    all_goals cases h

/-- On a sorted slice, an `Err i` of the search is where the target belongs:
everything before `i` compares `Less` and everything from `i` on `Greater`. -/
theorem binarySearchBy_error (hs : SortedBy f s) {i : Nat} (h : binarySearchBy s f = .error i) :
    i ≤ s.length ∧ (∀ j (hj : j < s.length), j < i → f s[j] = .lt) ∧
      ∀ j (hj : j < s.length), i ≤ j → f s[j] = .gt := by
  unfold binarySearchBy at h
  split at h
  case isTrue h0 =>
    cases h
    exact ⟨Nat.zero_le _, fun j hj _ => absurd hj (by omega), fun j hj _ => absurd hj (by omega)⟩
  case isFalse h0 =>
    have hi := searchLoop_inv hs 0 s.length (searchInv_start (Nat.pos_of_ne_zero h0))
    have hb : searchLoop f s 0 s.length < s.length := by have := hi.window_le; omega
    dsimp only at h
    simp only [List.getElem?_eq_getElem hb, Option.map_some'] at h
    split at h
    · cases h
    case h_2 hlt =>
      cases h
      refine ⟨hb, fun j hj hji => ?_, fun j hj hij => hi.above j hj hij⟩
      rcases Nat.lt_or_eq_of_le (Nat.le_of_lt_succ hji) with hji | rfl
      · exact (List.pairwise_iff_getElem.mp hs _ _ hj hb hji).2 (Option.some_inj.mp hlt)
      · exact Option.some_inj.mp hlt
    case h_3 hneq hnlt =>
      cases h
      have hgt : f s[searchLoop f s 0 s.length] = .gt := by
        cases hc : f s[searchLoop f s 0 s.length] <;> simp_all
      refine ⟨hb.le, fun j hj hji => ?_, fun j hj hij => ?_⟩
      · exact absurd hgt (hi.moved hb (by omega))
      · rcases Nat.lt_or_eq_of_le hij with hij | rfl
        · exact hi.above j hj (by omega)
        · exact hgt

def searchIndex : Except Nat Nat → Nat
  | .ok i => i
  | .error i => i

/-- On a sorted slice the search's index is an insertion point: nothing before it
compares `Greater` and nothing from it on compares `Less`. -/
theorem binarySearchBy_insertion (hs : SortedBy f s) :
    searchIndex (binarySearchBy s f) ≤ s.length ∧
      (∀ a ∈ s.take (searchIndex (binarySearchBy s f)), f a ≠ .gt) ∧
      ∀ b ∈ s.drop (searchIndex (binarySearchBy s f)), f b ≠ .lt := by
  rcases hr : binarySearchBy s f with i | i <;> dsimp only [searchIndex]
  case error =>
    obtain ⟨hle, hlt, hgt⟩ := binarySearchBy_error hs hr
    refine ⟨hle, fun a ha => ?_, fun b hb => ?_⟩
    · obtain ⟨j, hj, rfl⟩ := List.mem_take_iff_getElem.mp ha
      simp only [lt_inf_iff] at hj
      simp [hlt j hj.2 hj.1]
    · obtain ⟨j, hj, rfl⟩ := List.mem_drop_iff_getElem.mp hb
      simp [hgt (i + j) (by omega) (by omega)]
  case ok =>
    obtain ⟨hi, heq⟩ := binarySearchBy_ok hr
    refine ⟨hi.le, fun a ha => ?_, fun b hb => ?_⟩
    · obtain ⟨j, hj, rfl⟩ := List.mem_take_iff_getElem.mp ha
      have hji : j < i := (lt_inf_iff.mp hj).1
      exact fun hgt => by simp [(List.pairwise_iff_getElem.mp hs _ _ _ hi hji).1 hgt] at heq
    · obtain ⟨j, hj, rfl⟩ := List.mem_drop_iff_getElem.mp hb
      rcases Nat.eq_zero_or_pos j with rfl | hj0
      · simp [heq]
      · exact fun hlt => by
          simp [(List.pairwise_iff_getElem.mp hs i (i + j) hi (by omega) (by omega)).2 hlt] at heq

/-- On a sorted slice, `binary_search` finds `x` exactly when `x` is there. -/
theorem binarySearch_isOk_iff [LinearOrder α] {x : α} (hs : s.Sorted (· ≤ ·)) :
    (binarySearch s x).isOk ↔ x ∈ s := by
  have hsb : SortedBy (fun p => compare p x) s := hs.imp fun hab =>
    ⟨fun h => compare_gt_iff_gt.mpr (lt_of_lt_of_le (compare_gt_iff_gt.mp h) hab),
      fun h => compare_lt_iff_lt.mpr (lt_of_le_of_lt hab (compare_lt_iff_lt.mp h))⟩
  unfold binarySearch
  rcases hr : binarySearchBy s fun p => compare p x with i | i
  case ok =>
    obtain ⟨hi, heq⟩ := binarySearchBy_ok hr
    exact iff_of_true rfl (compare_eq_iff_eq.mp heq ▸ List.getElem_mem hi)
  case error =>
    obtain ⟨-, hlt, hgt⟩ := binarySearchBy_error hsb hr
    refine iff_of_false (by simp [Except.isOk, Except.toBool]) fun hx => ?_
    obtain ⟨j, hj, rfl⟩ := List.mem_iff_getElem.mp hx
    rcases Nat.lt_or_ge j i with hji | hji
    · nomatch (compare_eq_iff_eq.mpr rfl).symm.trans (hlt j hj hji)
    · nomatch (compare_eq_iff_eq.mpr rfl).symm.trans (hgt j hj hji)

example : binarySearch [1, 3, 5, 7, 9] 7 = .ok 3 := by
  simp [binarySearch, binarySearchBy, searchLoop, compare, compareOfLessAndEq]

example : binarySearch [1, 3, 5, 7, 9] 4 = .error 2 := by
  simp [binarySearch, binarySearchBy, searchLoop, compare, compareOfLessAndEq]

end Substrate
