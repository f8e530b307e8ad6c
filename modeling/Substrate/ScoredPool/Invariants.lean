import Substrate.ScoredPool.Calls

/-! The invariant of the scored pool over every reachable state. `Pool` stays sorted
by score, highest first, and keeps each account once; `CandidateExists` is the set of
its accounts; `Members` is sorted and holds scored candidates only; and the deposit is
reserved exactly for the accounts in `Pool`, out of balances that are never created
or lost. Each call keeps the invariant by its inversion lemma, the genesis build
establishes it, and `reachable_inv` is the induction over runs. -/
namespace Substrate.ScoredPool

variable {Account : Type} [LinearOrder Account]

/-- `Pool` is sorted by `unwrap_or_default`, highest first. -/
def PoolSorted (pool : List (PoolEntry Account)) : Prop :=
  pool.Pairwise fun a b => entryScore b ≤ entryScore a

/-- The invariant of the storage, for the deposit of `c` and the balances of `g`. -/
structure Inv (c : Config Account) (g : GenesisConfig Account) (s : State Account) : Prop where
  sorted : PoolSorted s.pool
  nodup : (s.pool.map Prod.fst).Nodup
  candidateExists_iff : ∀ a, s.candidateExists a = true ↔ a ∈ s.pool.map Prod.fst
  members_sorted : s.members.Sorted (· < ·)
  members_scored : ∀ a ∈ s.members, ∃ sc, (a, some sc) ∈ s.pool
  reserved_eq : ∀ a, s.reserved a = if a ∈ s.pool.map Prod.fst then c.candidateDeposit else 0
  balance_eq : ∀ a, s.free a + s.reserved a = g.balances a

/-- What `refresh_members` puts in `Members`: accounts of scored entries of `pool`,
strictly ascending when `pool` holds each account once. -/
theorem refreshMembers_members {s : State Account} {pool : List (PoolEntry Account)}
    (hn : (pool.map Prod.fst).Nodup) :
    (s.refreshMembers pool).members.Sorted (· < ·) ∧
      ∀ a ∈ (s.refreshMembers pool).members, ∃ sc, (a, some sc) ∈ pool := by
  let l := ((pool.filter (·.2.isSome)).take s.memberCount.val).map Prod.fst
  have hsub : List.Sublist ((pool.filter (·.2.isSome)).take s.memberCount.val) pool :=
    (List.take_sublist _ _).trans (List.filter_sublist _)
  have hperm := List.mergeSort_perm l fun a b => decide (a ≤ b)
  refine ⟨(List.sorted_mergeSort' l).lt_of_le (hperm.nodup_iff.mpr (hn.sublist (hsub.map _))),
    fun a ha => ?_⟩
  obtain ⟨e, he, rfl⟩ := List.mem_map.mp (hperm.mem_iff.mp ha)
  have he' := List.mem_filter.mp ((List.take_sublist _ _).subset he)
  obtain ⟨sc, hsc⟩ := Option.isSome_iff_exists.mp (by simpa using he'.2)
  exact ⟨sc, hsc ▸ he'.1⟩

section Pool

variable {p : List (PoolEntry Account)}

omit [LinearOrder Account] in
theorem PoolSorted.append_unscored (h : PoolSorted p) (who : Account) :
    PoolSorted (p ++ [(who, none)]) :=
  List.pairwise_append.mpr ⟨h, List.pairwise_singleton _ _, fun _ _ b hb => by
    rw [List.mem_singleton.mp hb]; exact Nat.zero_le _⟩

omit [LinearOrder Account] in
theorem PoolSorted.sortedBy (h : PoolSorted p) (sc : Score) :
    SortedBy (fun e => compare sc (entryScore e)) p :=
  h.imp fun hab =>
    ⟨fun hgt => compare_gt_iff_gt.mpr (lt_of_le_of_lt hab (compare_gt_iff_gt.mp hgt)),
      fun hlt => compare_lt_iff_lt.mpr (lt_of_lt_of_le (compare_lt_iff_lt.mp hlt) hab)⟩

omit [LinearOrder Account] in
theorem PoolSorted.insert_scoreLocation (h : PoolSorted p) (who : Account) (sc : Score) :
    PoolSorted (p.take (scoreLocation p sc) ++ (who, some sc) :: p.drop (scoreLocation p sc)) := by
  obtain ⟨-, hbefore, hafter⟩ := binarySearchBy_insertion (h.sortedBy sc)
  have hp : PoolSorted (p.take (scoreLocation p sc) ++ p.drop (scoreLocation p sc)) := by
    rw [List.take_append_drop]; exact h
  rw [PoolSorted, List.pairwise_append] at hp ⊢
  refine ⟨hp.1, List.pairwise_cons.mpr ⟨fun b hb => ?_, hp.2.1⟩, fun a ha b hb => ?_⟩
  · simpa [entryScore, compare_lt_iff_lt] using hafter b hb
  · rcases List.mem_cons.mp hb with rfl | hb
    · simpa [entryScore, compare_gt_iff_gt] using hbefore a ha
    · exact hp.2.2 a ha b hb

omit [LinearOrder Account] in
theorem mem_of_mem_middle {pre post : List (PoolEntry Account)} {e : PoolEntry Account}
    {who : Account} {sc : Option Score} (h : e ∈ pre ++ (who, sc) :: post) (hne : e.1 ≠ who) :
    e ∈ pre ++ post := by
  simp only [List.mem_append, List.mem_cons] at h ⊢
  rcases h with h | rfl | h
  · exact .inl h
  · exact absurd rfl hne
  · exact .inr h

omit [LinearOrder Account] in
theorem map_fst_insert_perm (l : Nat) (x : PoolEntry Account) :
    ((p.take l ++ x :: p.drop l).map Prod.fst).Perm (x.1 :: p.map Prod.fst) := by
  have h := (@List.perm_middle _ x (p.take l) (p.drop l)).map Prod.fst
  rwa [List.take_append_drop] at h

end Pool

section Steps

variable {c : Config Account} {g : GenesisConfig Account} {s : State Account}

theorem not_mem_of_candidateExists (hi : Inv c g s) {who : Account}
    (hex : s.candidateExists who = false) : who ∉ s.pool.map Prod.fst := fun h => by
  simp [(hi.candidateExists_iff who).mpr h] at hex

theorem inv_submit (hi : Inv c g s) {who : Account} {s₁ : State Account}
    (hex : s.candidateExists who = false) (hs₁ : s.reserve who c.candidateDeposit = some s₁) :
    Inv c g { s₁ with pool := s₁.pool ++ [(who, none)],
                      candidateExists := Function.update s₁.candidateExists who true } := by
  obtain ⟨hle, rfl⟩ := State.reserve_eq_some.mp hs₁
  have hnew := not_mem_of_candidateExists hi hex
  have hres := hi.reserved_eq who
  rw [if_neg hnew] at hres
  refine ⟨hi.sorted.append_unscored who, ?_, fun a => ?_, hi.members_sorted,
    fun a ha => ?_, fun a => ?_, fun a => ?_⟩
  · rw [List.map_append]
    exact hi.nodup.append (List.nodup_singleton _) (List.disjoint_singleton.mpr hnew)
  · by_cases ha : a = who
    · subst ha; simp
    · simp [Function.update_noteq ha, hi.candidateExists_iff, ha]
  · obtain ⟨sc, hsc⟩ := hi.members_scored a ha
    exact ⟨sc, List.mem_append_left _ hsc⟩
  · by_cases ha : a = who
    · subst ha; simp [hres]
    · simp only [Function.update_noteq ha, hi.reserved_eq a, List.map_append, List.mem_append,
        List.map_cons, List.map_nil, List.mem_singleton, ha, or_false]
  · exact (State.reserve_total hs₁ a).trans (hi.balance_eq a)

@[simp] theorem removedState_pool {pool : List (PoolEntry Account)} {who : Account} :
    (removedState c s pool who).pool = pool := by
  unfold removedState; split <;> rfl

@[simp] theorem removedState_candidateExists {pool : List (PoolEntry Account)} {who : Account} :
    (removedState c s pool who).candidateExists = Function.update s.candidateExists who false := by
  unfold removedState; split <;> rfl

@[simp] theorem removedState_free {pool : List (PoolEntry Account)} {who : Account} :
    (removedState c s pool who).free = (s.unreserve who c.candidateDeposit).free := by
  unfold removedState; split <;> rfl

@[simp] theorem removedState_reserved {pool : List (PoolEntry Account)} {who : Account} :
    (removedState c s pool who).reserved = (s.unreserve who c.candidateDeposit).reserved := by
  unfold removedState; split <;> rfl

theorem removedState_members {pool : List (PoolEntry Account)} {who : Account} :
    (removedState c s pool who).members =
      if (binarySearch s.members who).isOk then (s.refreshMembers pool).members else s.members := by
  unfold removedState; split <;> rfl

theorem inv_removedState (hi : Inv c g s) {pre post : List (PoolEntry Account)} {who : Account}
    {sc : Option Score} (hp : s.pool = pre ++ (who, sc) :: post) :
    Inv c g (removedState c s (pre ++ post) who) := by
  have hnd := hi.nodup
  rw [hp, List.map_append, List.map_cons, List.nodup_middle, List.nodup_cons,
    ← List.map_append] at hnd
  have hmem : ∀ a, a ≠ who → (a ∈ (pre ++ post).map Prod.fst ↔ a ∈ s.pool.map Prod.fst) := by
    intro a ha; rw [hp]; simp [ha]
  have hres := hi.reserved_eq who
  rw [if_pos (by simp [hp])] at hres
  have hmembers : (removedState c s (pre ++ post) who).members.Sorted (· < ·) ∧
      ∀ a ∈ (removedState c s (pre ++ post) who).members, ∃ sc, (a, some sc) ∈ pre ++ post := by
    rw [removedState_members]
    split
    · exact refreshMembers_members hnd.2
    case isFalse hfound =>
      refine ⟨hi.members_sorted, fun a ha => ?_⟩
      have hne : a ≠ who := fun h =>
        hfound ((binarySearch_isOk_iff (hi.members_sorted.imp le_of_lt)).mpr (h ▸ ha))
      obtain ⟨sc', hsc'⟩ := hi.members_scored a ha
      exact ⟨sc', mem_of_mem_middle (hp ▸ hsc') hne⟩
  refine ⟨?_, by simpa using hnd.2, fun a => ?_, hmembers.1, by simpa using hmembers.2,
    fun a => ?_, fun a => ?_⟩
  · simpa using hi.sorted.sublist (hp ▸ (List.sublist_cons_self _ post).append_left pre)
  · by_cases ha : a = who
    · subst ha; simpa using hnd.1
    · rw [removedState_candidateExists, Function.update_noteq ha, hi.candidateExists_iff,
        removedState_pool, hmem a ha]
  · have hnot : who ∉ (pre ++ post).map Prod.fst := hnd.1
    rw [removedState_pool, removedState_reserved]
    by_cases ha : a = who
    · subst ha; simp [State.unreserve, hres, if_neg hnot]
    · simp only [State.unreserve, Function.update_noteq ha, hi.reserved_eq a, hmem a ha]
  · rw [removedState_free, removedState_reserved, State.unreserve_total]
    exact hi.balance_eq a

theorem inv_score (hi : Inv c g s) {pre post : List (PoolEntry Account)} {who : Account}
    {sc₀ : Option Score} (hp : s.pool = pre ++ (who, sc₀) :: post) (sc : Score) :
    Inv c g { s with pool := (pre ++ post).take (scoreLocation (pre ++ post) sc) ++
      (who, some sc) :: (pre ++ post).drop (scoreLocation (pre ++ post) sc) } := by
  have hperm : (((pre ++ post).take (scoreLocation (pre ++ post) sc) ++
      (who, some sc) :: (pre ++ post).drop (scoreLocation (pre ++ post) sc)).map Prod.fst).Perm
      (s.pool.map Prod.fst) := by
    refine (map_fst_insert_perm _ _).trans ?_
    rw [hp]
    exact ((@List.perm_middle _ (who, sc₀) pre post).map Prod.fst).symm
  have hsub : List.Sublist (pre ++ post) s.pool :=
    hp ▸ (List.sublist_cons_self _ post).append_left pre
  refine ⟨PoolSorted.insert_scoreLocation (hi.sorted.sublist hsub) who sc, hperm.nodup_iff.mpr hi.nodup,
    fun a => ?_, hi.members_sorted, fun a ha => ?_, fun a => ?_, hi.balance_eq⟩
  · rw [hperm.mem_iff]; exact hi.candidateExists_iff a
  · by_cases haw : a = who
    · subst haw; exact ⟨sc, by simp⟩
    · obtain ⟨sc', hsc'⟩ := hi.members_scored a ha
      have hin := mem_of_mem_middle (hp ▸ hsc') haw
      rw [← List.take_append_drop (scoreLocation (pre ++ post) sc) (pre ++ post)] at hin
      refine ⟨sc', ?_⟩
      simp only [List.mem_append, List.mem_cons] at hin ⊢
      exact hin.imp_right .inr
  · simp only [hperm.mem_iff]; exact hi.reserved_eq a

theorem inv_changeMemberCount (hi : Inv c g s) (count : Codec.U32) :
    Inv c g { s with memberCount := count } :=
  ⟨hi.sorted, hi.nodup, hi.candidateExists_iff, hi.members_sorted, hi.members_scored,
    hi.reserved_eq, hi.balance_eq⟩

theorem inv_refreshMembers (hi : Inv c g s) : Inv c g (s.refreshMembers s.pool) :=
  ⟨hi.sorted, hi.nodup, hi.candidateExists_iff, (refreshMembers_members hi.nodup).1,
    (refreshMembers_members hi.nodup).2, hi.reserved_eq, hi.balance_eq⟩

/-- The step lemma: every dispatch, `Ok` or `Err`, keeps the invariant. -/
theorem inv_dispatch (hi : Inv c g s) {s' : State Account} {origin : Origin Account}
    {call : Call Account} {r : Except DispatchError Unit}
    (h : dispatch c s origin call = some (s', r)) : Inv c g s' := by
  cases call with
  | submitCandidacy append =>
    rcases submitCandidacy_cases h with ⟨rfl, -⟩ | ⟨-, who, s₁, -, hex, hs₁, rfl⟩
    · exact hi
    · exact inv_submit hi hex hs₁
  | withdrawCandidacy index =>
    rcases checked_removeMember_cases h with ⟨rfl, -⟩ | ⟨-, who, pre, sc, post, hp, rfl⟩
    · exact hi
    · exact inv_removedState hi hp
  | kick dest index =>
    rcases checked_removeMember_cases h with ⟨rfl, -⟩ | ⟨-, who, pre, sc, post, hp, rfl⟩
    · exact hi
    · exact inv_removedState hi hp
  | score dest index sc =>
    rcases score_cases h with ⟨rfl, -⟩ | ⟨-, who, pre, sc₀, post, -, hp, -, rfl⟩
    · exact hi
    · exact inv_score hi hp sc
  | changeMemberCount count =>
    rcases changeMemberCount_cases h with ⟨rfl, -⟩ | ⟨-, rfl⟩
    · exact hi
    · exact inv_changeMemberCount hi count

theorem inv_onInitialize (hi : Inv c g s) {s' : State Account} {n : Nat}
    (h : onInitialize c s n = some s') : Inv c g s' := by
  unfold onInitialize at h
  split at h
  · cases h
  · split at h <;> cases h
    · exact inv_refreshMembers hi
    · exact hi

end Steps

section Genesis

variable {c : Config Account} {g : GenesisConfig Account}

theorem genesis_reserves (d : Nat) :
    ∀ (l : List (PoolEntry Account)) (s s' : State Account),
      l.foldlM (fun s e => do
        let s ← s.reserve e.1 d
        pure { s with candidateExists := Function.update s.candidateExists e.1 true }) s = some s' →
      s'.pool = s.pool ∧ s'.members = s.members ∧ s'.memberCount = s.memberCount ∧
      (∀ a, s'.candidateExists a = (s.candidateExists a || decide (a ∈ l.map Prod.fst))) ∧
      (∀ a, s'.reserved a = s.reserved a + d * (l.map Prod.fst).count a) ∧
      ∀ a, s'.free a + s'.reserved a = s.free a + s.reserved a
  | [], s, s', h => by
    cases h
    exact ⟨rfl, rfl, rfl, by simp, by simp, fun _ => rfl⟩
  | e :: l, s, s', h => by
    simp only [List.foldlM_cons, Option.bind_eq_bind, Option.bind_eq_some] at h
    obtain ⟨s₂, hs₂, hl⟩ := h
    obtain ⟨s₁, hs₁, hpure⟩ := hs₂
    cases hpure
    obtain ⟨hle, rfl⟩ := State.reserve_eq_some.mp hs₁
    obtain ⟨hp, hm, hc, hce, hres, hbal⟩ := genesis_reserves d l _ _ hl
    refine ⟨hp, hm, hc, fun a => ?_, fun a => ?_, fun a => ?_⟩
    · rw [hce a]
      by_cases ha : a = e.1
      · subst ha; simp
      · simp [Function.update_noteq ha, beq_false_of_ne ha]
    · rw [hres a]
      by_cases ha : a = e.1
      · subst ha; simp [List.count_cons, Nat.mul_succ]; omega
      · simp [Function.update_noteq ha, List.count_cons, Ne.symm ha]
    · exact (hbal a).trans (State.reserve_total hs₁ a)

omit [LinearOrder Account] in
theorem PoolSorted.sortPool (pool : List (PoolEntry Account)) : PoolSorted (sortPool pool) :=
  (@List.sorted_mergeSort _ (fun a b => decide (entryScore b ≤ entryScore a))
    (fun _ _ _ h₁ h₂ => decide_eq_true (le_trans (of_decide_eq_true h₂) (of_decide_eq_true h₁)))
    (fun a b => by simpa using le_total (entryScore b) (entryScore a)) pool).imp
    fun h => of_decide_eq_true h

theorem genesisBuild_eq_some {s : State Account} (h : genesisBuild c g = some s) :
    s.pool = sortPool g.pool ∧ s.memberCount = g.memberCount ∧
      s.members = (s.refreshMembers s.pool).members := by
  simp only [genesisBuild, Option.bind_eq_bind, Option.bind_eq_some, Option.pure_def,
    Option.some_inj] at h
  obtain ⟨s₁, hs₁, rfl⟩ := h
  exact ⟨rfl, (genesis_reserves c.candidateDeposit g.pool _ _ hs₁).2.2.1, rfl⟩

/-- The genesis build over a pool of distinct accounts establishes the invariant. -/
theorem inv_genesis {s : State Account} (hn : (g.pool.map Prod.fst).Nodup)
    (h : genesisBuild c g = some s) : Inv c g s := by
  simp only [genesisBuild, Option.bind_eq_bind, Option.bind_eq_some, Option.pure_def,
    Option.some_inj] at h
  obtain ⟨s₁, hs₁, rfl⟩ := h
  obtain ⟨-, -, -, hce, hres, hbal⟩ := genesis_reserves c.candidateDeposit g.pool _ _ hs₁
  have hperm : ((sortPool g.pool).map Prod.fst).Perm (g.pool.map Prod.fst) :=
    (List.mergeSort_perm _ _).map _
  have hn' := hperm.nodup_iff.mpr hn
  refine ⟨PoolSorted.sortPool g.pool, hn', fun a => ?_, (refreshMembers_members hn').1,
    (refreshMembers_members hn').2, fun a => ?_, fun a => ?_⟩
  · simp [hce a, hperm.mem_iff]
  · simp only [State.refreshMembers_reserved, State.refreshMembers_pool, hres a,
      List.count_eq_of_nodup hn, hperm.mem_iff]
    split <;> simp
  · simp only [State.refreshMembers_free, State.refreshMembers_reserved, hbal a]
    simp

end Genesis

/-- The run lemma: every reachable state satisfies the invariant. -/
theorem reachable_inv {c : Config Account} {g : GenesisConfig Account} {s : State Account}
    (h : Reachable c g s) : Inv c g s := by
  induction h with
  | genesis hn hb => exact inv_genesis hn hb
  | dispatch _ hd ih => exact inv_dispatch ih hd
  | onInitialize _ ho ih => exact inv_onInitialize ih ho

/-- In every reachable state `Pool` is sorted by score, highest first, and holds each
account once; `CandidateExists` marks exactly its accounts; and `Members` is strictly
ascending and holds only accounts whose entry is scored. -/
theorem reachable_pool_invariants {c : Config Account} {g : GenesisConfig Account}
    {s : State Account} (h : Reachable c g s) :
    s.pool.Pairwise (fun a b => entryScore b ≤ entryScore a) ∧ (s.pool.map Prod.fst).Nodup ∧
      (∀ a, s.candidateExists a = true ↔ a ∈ s.pool.map Prod.fst) ∧
      s.members.Sorted (· < ·) ∧ ∀ a ∈ s.members, ∃ sc, (a, some sc) ∈ s.pool :=
  let hi := reachable_inv h
  ⟨hi.sorted, hi.nodup, hi.candidateExists_iff, hi.members_sorted, hi.members_scored⟩

/-- In every reachable state the deposit is reserved for an account exactly while it
is in `Pool`, and its free and reserved balances add up to what it started with. -/
theorem reachable_deposits_reserved {c : Config Account} {g : GenesisConfig Account}
    {s : State Account} (h : Reachable c g s) (a : Account) :
    s.reserved a = (if a ∈ s.pool.map Prod.fst then c.candidateDeposit else 0) ∧
      s.free a + s.reserved a = g.balances a :=
  ⟨(reachable_inv h).reserved_eq a, (reachable_inv h).balance_eq a⟩

def emptyGenesis : GenesisConfig Nat := ⟨[], 1, fun a => if a = 2 then 10 else 0⟩

theorem reachable_after_submit :
    ∃ s, Reachable rootOnly emptyGenesis s ∧ s.pool = [(2, none)] :=
  ⟨_, @Reachable.dispatch _ _ rootOnly emptyGenesis _ _ (.signed 2) (.submitCandidacy (.ok ())) _
    (.genesis (by decide) rfl) rfl, by simp [sortPool, emptyGenesis]⟩

def threeScored : List (PoolEntry Nat) := [(1, some 3), (2, some 2), (3, some 1)]

def threeCandidates : GenesisConfig Nat := ⟨threeScored, 1, fun _ => 10⟩

theorem sortPool_threeScored : sortPool threeScored = threeScored :=
  List.mergeSort_of_sorted (by decide)

theorem genesis_threeCandidates :
    ∃ s₀, genesisBuild rootOnly threeCandidates = some s₀ ∧ s₀.pool = threeScored ∧ s₀.members = [1] := by
  obtain ⟨s₀, h₀⟩ : ∃ s₀, genesisBuild rootOnly threeCandidates = some s₀ := ⟨_, rfl⟩
  obtain ⟨hp₀, hc₀, hm₀⟩ := genesisBuild_eq_some h₀
  have hp : s₀.pool = threeScored := hp₀.trans sortPool_threeScored
  refine ⟨s₀, h₀, hp, ?_⟩
  rw [hm₀, State.refreshMembers, hp, hc₀]
  exact List.mergeSort_singleton _

/-- After genesis over the three candidates root raises `MemberCount` to 2: three scored
entries, and one member. -/
theorem reachable_pool_invariants_three :
    ∃ s, Reachable rootOnly threeCandidates s ∧ s.pool = threeScored ∧ s.members = [1] ∧
      (s.pool.Pairwise (fun a b => entryScore b ≤ entryScore a) ∧ (s.pool.map Prod.fst).Nodup ∧
        (∀ a, s.candidateExists a = true ↔ a ∈ s.pool.map Prod.fst) ∧
        s.members.Sorted (· < ·) ∧ ∀ a ∈ s.members, ∃ sc, (a, some sc) ∈ s.pool) := by
  obtain ⟨s₀, h₀, hp, hm⟩ := genesis_threeCandidates
  have hr : Reachable rootOnly threeCandidates { s₀ with memberCount := 2 } :=
    .dispatch (.genesis (by decide) h₀) (rfl : dispatch rootOnly s₀ .root (.changeMemberCount 2) = _)
  exact ⟨_, hr, hp, hm, reachable_pool_invariants hr⟩

theorem reachable_deposits_reserved_after_submit :
    ∃ s, Reachable rootOnly emptyGenesis s ∧
      (s.reserved 2 = (if 2 ∈ s.pool.map Prod.fst then rootOnly.candidateDeposit else 0) ∧
        s.free 2 + s.reserved 2 = emptyGenesis.balances 2) :=
  let ⟨s, h, _⟩ := reachable_after_submit
  ⟨s, h, reachable_deposits_reserved h 2⟩

end Substrate.ScoredPool
