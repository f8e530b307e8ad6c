import Substrate.ScoredPool.Invariants

/-! What the module does to the ranking in `Pool`: `refresh_members` takes the
`MemberCount` best-scored candidates, `score` moves one entry to its place by the
search, and `remove_member` refreshes `Members` from the whole remaining pool. -/
namespace Substrate.ScoredPool

variable {Account : Type} [LinearOrder Account]

section Refresh

variable {pool : List (PoolEntry Account)}

omit [LinearOrder Account] in
theorem PoolSorted.take_scored (hs : PoolSorted pool) (count : Nat) {e e' : PoolEntry Account}
    (he : e ∈ (pool.filter (·.2.isSome)).take count)
    (he' : e' ∈ (pool.filter (·.2.isSome)).drop count) : entryScore e' ≤ entryScore e := by
  have hf : PoolSorted (pool.filter (·.2.isSome)) := hs.sublist (List.filter_sublist _)
  rw [PoolSorted, ← List.take_append_drop count (pool.filter (·.2.isSome)),
    List.pairwise_append] at hf
  exact hf.2.2 e he e' he'

/-- `refresh_members` over a pool sorted by score, highest first: `Members` becomes the
accounts of the first `MemberCount` scored entries, in ascending order. There are
`min MemberCount s` of them for `s` scored entries, each has a score, and no scored
candidate outside `Members` scores higher than a member. -/
theorem refreshMembers_top_scored (s : State Account) (hs : PoolSorted pool) :
    (s.refreshMembers pool).members.Sorted (· ≤ ·) ∧
      (s.refreshMembers pool).members.Perm
        (((pool.filter (·.2.isSome)).take s.memberCount.val).map Prod.fst) ∧
      (s.refreshMembers pool).members.length =
        min s.memberCount.val (pool.filter (·.2.isSome)).length ∧
      ∀ a ∈ (s.refreshMembers pool).members, ∃ sc, (a, some sc) ∈ pool ∧
        ∀ b sb, (b, some sb) ∈ pool → b ∉ (s.refreshMembers pool).members → sb ≤ sc := by
  let taken := (pool.filter (·.2.isSome)).take s.memberCount.val
  have hperm : (s.refreshMembers pool).members.Perm (taken.map Prod.fst) :=
    List.mergeSort_perm _ _
  refine ⟨List.sorted_mergeSort' _, hperm, by simp [hperm.length_eq, taken], fun a ha => ?_⟩
  obtain ⟨⟨a', sa⟩, he, rfl⟩ := List.mem_map.mp (hperm.mem_iff.mp ha)
  have hf := List.mem_filter.mp ((List.take_sublist _ _).subset he)
  obtain ⟨sc, rfl⟩ := Option.isSome_iff_exists.mp (by simpa using hf.2)
  refine ⟨sc, hf.1, fun b sb hb hnot => ?_⟩
  have hbf : (b, some sb) ∈ pool.filter (·.2.isSome) := List.mem_filter.mpr ⟨hb, rfl⟩
  rw [← List.take_append_drop s.memberCount.val (pool.filter (·.2.isSome)), List.mem_append] at hbf
  rcases hbf with hbt | hbd
  · exact absurd (hperm.mem_iff.mpr (List.mem_map_of_mem Prod.fst hbt)) hnot
  · exact hs.take_scored s.memberCount.val he hbd

theorem poolSorted_threeScored : PoolSorted threeScored := show List.Pairwise _ _ from by decide

theorem refreshMembers_top_scored_three :
    PoolSorted threeScored ∧
      (noCandidates.refreshMembers threeScored).members.Sorted (· ≤ ·) ∧
      (noCandidates.refreshMembers threeScored).members.Perm
        (((threeScored.filter (·.2.isSome)).take noCandidates.memberCount.val).map Prod.fst) ∧
      (noCandidates.refreshMembers threeScored).members.length =
        min noCandidates.memberCount.val (threeScored.filter (·.2.isSome)).length ∧
      ∀ a ∈ (noCandidates.refreshMembers threeScored).members, ∃ sc, (a, some sc) ∈ threeScored ∧
        ∀ b sb, (b, some sb) ∈ threeScored → b ∉ (noCandidates.refreshMembers threeScored).members →
          sb ≤ sc :=
  ⟨poolSorted_threeScored, refreshMembers_top_scored noCandidates poolSorted_threeScored⟩

end Refresh

omit [LinearOrder Account] in
theorem set_middle (pre post : List (PoolEntry Account)) (x y : PoolEntry Account) :
    (pre ++ x :: post).set pre.length y = pre ++ y :: post := by
  rw [List.set_append_right _ _ (le_refl _), Nat.sub_self, List.set_cons_zero]

/-- A `score` that succeeds on a pool sorted by score stores a pool that is a
permutation of the old one with the entry at `index`, the looked-up account's,
scored anew, and that is sorted again, wherever entries with the same score stood. -/
theorem score_stores_sorted_permutation {c : Config Account} {s s' : State Account}
    {origin : Origin Account} {dest : Account} {index : Codec.U32} {sc : Score}
    (hs : PoolSorted s.pool) (h : score c s origin dest index sc = some (s', .ok ())) :
    ∃ who, c.lookup dest = .ok who ∧ ∃ hi : index.val < s.pool.length,
      (s.pool.get ⟨index.val, hi⟩).1 = who ∧
      s'.pool.Perm (s.pool.set index.val (who, some sc)) ∧ PoolSorted s'.pool := by
  rcases score_cases h with ⟨-, e, he⟩ | ⟨-, who, pre, sc₀, post, hl, hp, hlen, rfl⟩
  · cases he
  have hi : index.val < s.pool.length := by rw [hp, ← hlen]; simp
  refine ⟨who, hl, hi, by simp [hp, ← hlen, List.getElem_append_right], ?_,
    PoolSorted.insert_scoreLocation (hs.sublist (hp ▸ (List.sublist_cons_self _ post).append_left pre)) who sc⟩
  rw [hp, ← hlen, set_middle]
  exact (List.perm_middle.trans (List.take_append_drop _ (pre ++ post) ▸ List.perm_middle).symm).symm

def threePooled : State Nat := { noCandidates with pool := threeScored }

/-- On a pool sorted by score, `score` returns `Ok` once its origin, lookup and index
checks pass: the index is inside the pool, so `remove` does not panic, and the search
puts the new score at most at the end of what is left, so `insert` does not either. -/
theorem score_eq_ok {c : Config Account} {s : State Account} {origin : Origin Account}
    {dest who : Account} {index : Codec.U32} {sc : Score} (hs : PoolSorted s.pool)
    (ho : ensureOriginOrRoot c.scoreOrigin origin = .ok ()) (hl : c.lookup dest = .ok who)
    (hi : ensureIndex s.pool who index = .ok ()) :
    ∃ pre sc₀ post, s.pool = pre ++ (who, sc₀) :: post ∧ pre.length = index.val ∧
      score c s origin dest index sc = some
        ({ s with pool := (pre ++ post).take (scoreLocation (pre ++ post) sc) ++
            (who, some sc) :: (pre ++ post).drop (scoreLocation (pre ++ post) sc) }, .ok ()) := by
  obtain ⟨pre, sc₀, post, hp, hlen⟩ := ensureIndex_eq_ok hi
  have hsorted : PoolSorted (pre ++ post) :=
    hs.sublist (hp ▸ (List.sublist_cons_self _ post).append_left pre)
  have hloc : scoreLocation (pre ++ post) sc ≤ (pre ++ post).length :=
    (binarySearchBy_insertion (hsorted.sortedBy sc)).1
  refine ⟨pre, sc₀, post, hp, hlen, ?_⟩
  simp only [score, State.checked, ho, hl, hi, Except.mapError, bind, Except.bind, pure, Except.pure]
  rw [hp, ← hlen, vecRemove_middle]
  simp only [Option.bind_eq_bind, Option.some_bind, vecInsert]
  rw [if_pos hloc]
  rfl

theorem score_eq_ok_threePooled :
    PoolSorted threePooled.pool ∧ ensureOriginOrRoot rootOnly.scoreOrigin (.root : Origin Nat) = .ok () ∧
      rootOnly.lookup 3 = .ok 3 ∧ ensureIndex threePooled.pool 3 2 = .ok () ∧
      ∃ pre sc₀ post, threePooled.pool = pre ++ (3, sc₀) :: post ∧ pre.length = (2 : Codec.U32).val ∧
        score rootOnly threePooled .root 3 2 5 = some
          ({ threePooled with pool := (pre ++ post).take (scoreLocation (pre ++ post) 5) ++
              (3, some 5) :: (pre ++ post).drop (scoreLocation (pre ++ post) 5) }, .ok ()) :=
  ⟨poolSorted_threeScored, rfl, rfl, rfl, score_eq_ok poolSorted_threeScored rfl rfl rfl⟩

theorem scoreLocation_five : scoreLocation [((1 : Nat), some 3), (2, some 2)] 5 = 0 := by
  rw [scoreLocation, binarySearchBy, searchLoop, searchLoop]
  rfl

theorem score_threePooled :
    score rootOnly threePooled .root 3 2 5 =
      some ({ threePooled with pool := [(3, some 5), (1, some 3), (2, some 2)] }, .ok ()) := by
  have h : score rootOnly threePooled .root 3 2 5 =
      (vecInsert [(1, some 3), (2, some 2)] (scoreLocation [((1 : Nat), some 3), (2, some 2)] 5)
        (3, some 5)).bind fun pool => some ({ threePooled with pool }, .ok ()) := rfl
  rw [h, scoreLocation_five]
  rfl

theorem score_stores_sorted_permutation_three :
    PoolSorted threePooled.pool ∧
      score rootOnly threePooled .root 3 2 5 =
        some ({ threePooled with pool := [(3, some 5), (1, some 3), (2, some 2)] }, .ok ()) ∧
      ∃ who, rootOnly.lookup 3 = .ok who ∧ ∃ hi : (2 : Codec.U32).val < threePooled.pool.length,
        (threePooled.pool.get ⟨(2 : Codec.U32).val, hi⟩).1 = who ∧
        ({ threePooled with pool := [(3, some 5), (1, some 3), (2, some 2)] } : State Nat).pool.Perm
          (threePooled.pool.set (2 : Codec.U32).val (who, some 5)) ∧
        PoolSorted ({ threePooled with pool := [(3, some 5), (1, some 3), (2, some 2)] } :
          State Nat).pool :=
  ⟨poolSorted_threeScored, score_threePooled,
    score_stores_sorted_permutation poolSorted_threeScored score_threePooled⟩

section Remove

variable {c : Config Account} {s : State Account}

/-- `remove_member` returns `Ok` once `ensure_index` does: it never panics after it. -/
theorem removeMember_eq_some {pool : List (PoolEntry Account)} {who : Account} {index : Codec.U32}
    (h : ensureIndex pool who index = .ok ()) :
    ∃ pre sc post, pool = pre ++ (who, sc) :: post ∧ pre.length = index.val ∧
      removeMember c s pool who index = some (removedState c s (pre ++ post) who, .ok ()) := by
  obtain ⟨pre, sc, post, rfl, hlen⟩ := ensureIndex_eq_ok h
  refine ⟨pre, sc, post, rfl, hlen, ?_⟩
  rw [removeMember, h]
  simp only [State.checked, ← hlen, vecRemove_middle, Option.bind_eq_bind, Option.some_bind,
    removedState]
  split <;> rfl

theorem withdrawCandidacy_signed {who : Account} {index : Codec.U32}
    (h : ensureIndex s.pool who index = .ok ()) :
    withdrawCandidacy c s (.signed who) index = removeMember c s s.pool who index := by
  simp only [withdrawCandidacy, State.checked, ensureSigned, bind, Except.bind, h, pure, Except.pure]

theorem removedState_members_of_mem {pool : List (PoolEntry Account)} {who : Account}
    (hm : s.members.Sorted (· < ·)) (hw : who ∈ s.members) :
    (removedState c s pool who).members = (s.refreshMembers pool).members := by
  rw [removedState_members, if_pos ((binarySearch_isOk_iff (hm.imp le_of_lt)).mpr hw)]

/-- `withdraw_candidacy` undoes `submit_candidacy`: in a reachable state, a candidacy that
is appended and then withdrawn from the index it was appended at leaves the storage and
every balance exactly as they were before the submission. The pool's new length must fit
the `u32` that `ensure_index` compares the index with. -/
theorem withdraw_after_submit_restores {g : GenesisConfig Account} {s₁ : State Account} {who : Account}
    (h : Reachable c g s) (hlen : s.pool.length + 1 < 2 ^ 32)
    (hs : submitCandidacy c s (.signed who) (.ok ()) = some (s₁, .ok ())) :
    withdrawCandidacy c s₁ (.signed who) ⟨s.pool.length, by omega⟩ = some (s, .ok ()) := by
  have hi := reachable_inv h
  rcases submitCandidacy_cases hs with ⟨-, e, he⟩ | ⟨-, who', s', horigin, hex, hres, rfl⟩
  · cases he
  cases horigin
  obtain ⟨-, hs'⟩ := State.reserve_eq_some.mp hres
  have hidx : ensureIndex (s'.pool ++ [(who, none)]) who ⟨s.pool.length, by omega⟩ = .ok () := by
    simp only [ensureIndex, hs', List.length_append, List.length_singleton, Nat.mod_eq_of_lt hlen,
      Nat.lt_succ_self, dif_pos, List.get_eq_getElem, List.getElem_concat_length, if_true]
  obtain ⟨pre, sc, post, hsplit, hpre, hrm⟩ := removeMember_eq_some (c := c) (s := { s' with
    pool := s'.pool ++ [(who, none)], candidateExists := Function.update s'.candidateExists who true }) hidx
  have hsplit' : s'.pool ++ [(who, none)] = pre ++ (who, sc) :: post := hsplit
  obtain ⟨rfl, hpost⟩ := List.append_inj hsplit' (by rw [hpre, hs'])
  obtain rfl : post = [] := (List.cons.inj hpost).2.symm
  have hnot : ¬(binarySearch s.members who).isOk := fun hb => by
    obtain ⟨sc', hsc'⟩ := hi.members_scored who ((binarySearch_isOk_iff (hi.members_sorted.imp le_of_lt)).mp hb)
    exact not_mem_of_candidateExists hi hex (List.mem_map_of_mem Prod.fst hsc')
  rw [withdrawCandidacy_signed hidx, hrm, List.append_nil]
  have hce : Function.update s.candidateExists who false = s.candidateExists := by
    rw [Function.update_eq_self_iff, hex]
  subst hs'
  simp only [removedState, if_neg hnot, Function.update_idem, hce]
  rw [State.unreserve_reserve hres]

end Remove

theorem withdraw_after_submit_restores_genesis :
    ∃ s s₁, Reachable rootOnly emptyGenesis s ∧ s.pool.length + 1 < 2 ^ 32 ∧
      submitCandidacy rootOnly s (.signed 2) (.ok ()) = some (s₁, .ok ()) ∧
      withdrawCandidacy rootOnly s₁ (.signed 2) 0 = some (s, .ok ()) := by
  have hr : Reachable rootOnly emptyGenesis ⟨[], fun _ => false, [], 1, emptyGenesis.balances, fun _ => 0⟩ :=
    .genesis (by decide) (by simp [genesisBuild, emptyGenesis, sortPool, State.refreshMembers])
  exact ⟨_, _, hr, by decide, rfl, withdraw_after_submit_restores hr (by decide) rfl⟩

/-- After genesis `Members` is `[1]`; root raises `MemberCount` to 2, which `Members`
does not show; then member 1 withdraws. The refresh that follows takes two members,
2 and 3, where one replacement, 2, was due. -/
theorem withdraw_member_refreshes_all :
    ∃ s s', Reachable rootOnly threeCandidates s ∧ s.members = [1] ∧ s.pool = threeScored ∧
      dispatch rootOnly s (.signed 1) (.withdrawCandidacy 0) = some (s', .ok ()) ∧
      s'.members = [2, 3] := by
  obtain ⟨s₀, h₀, hp, hm⟩ := genesis_threeCandidates
  have hr : Reachable rootOnly threeCandidates { s₀ with memberCount := 2 } :=
    .dispatch (.genesis (by decide) h₀) (rfl : dispatch rootOnly s₀ .root (.changeMemberCount 2) = _)
  have hi : ensureIndex ({ s₀ with memberCount := 2 } : State Nat).pool 1 0 = .ok () := by
    rw [show ({ s₀ with memberCount := 2 } : State Nat).pool = threeScored from hp]
    rfl
  obtain ⟨pre, sc, post, hsplit, hlen, hrm⟩ :=
    removeMember_eq_some (c := rootOnly) (s := { s₀ with memberCount := 2 }) hi
  obtain rfl : pre = [] := List.length_eq_zero.mp hlen
  rw [show ({ s₀ with memberCount := 2 } : State Nat).pool = threeScored from hp] at hsplit
  obtain ⟨-, rfl⟩ := List.cons_eq_cons.mp hsplit
  refine ⟨_, _, hr, hm, hp, (withdrawCandidacy_signed hi).trans hrm, ?_⟩
  rw [removedState_members_of_mem (by rw [hm]; exact List.sorted_singleton _) (by simp [hm])]
  exact List.mergeSort_of_sorted (l := [2, 3]) (by decide)

end Substrate.ScoredPool
