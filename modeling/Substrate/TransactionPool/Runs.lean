import Substrate.TransactionPool.Prune

/-! What the pool's runs keep and what its calls guarantee: every transaction stored in a
reachable state is one a `Valid` answer of validation built from its data;
`clear_stale` removes exactly the stale transactions it scans and bans them; `submit_at`
admits no banned transaction; and `prune_tags` leaves every known imported hash banned
when the clock does not run backwards and the ban has not run out by `clear_stale`. -/
namespace Substrate.TransactionPool

variable {Hash BlockId : Type}

section Check

variable [DecidableEq Hash] {api : FullChainApi Hash BlockId} {r : Rotator Hash} {atBlock : BlockId} {n : Nat}
  {xt : Bytes}

theorem checkExtrinsic_eq_ok_iff {t : Transaction Hash} :
    checkExtrinsic api r atBlock n xt = .ok t ↔ ¬ r.IsBanned (api.hashAndLength xt).1 ∧
      ∃ v, api.validateTransaction atBlock xt = .ok (.valid v) ∧ v.provides ≠ [] ∧
        t = { data := xt, bytes := (api.hashAndLength xt).2, hash := (api.hashAndLength xt).1,
              priority := v.priority, requires := v.requires, provides := v.provides,
              propagate := v.propagate, validTill := saturatingAddU64 (saturatedU64 n) v.longevity } := by
  unfold checkExtrinsic
  split_ifs with hb
  · simp [hb]
  · rcases api.validateTransaction atBlock xt with e | (c | v | c) <;> simp [hb]
    by_cases hp : v.provides = []
    · simp [hp]
    · simpa [hp] using eq_comm

end Check

section Validated

variable [DecidableEq Hash] {api : FullChainApi Hash BlockId} {ops : BaseOps Hash} {opts : Options}
  {p : Pool Hash}

/-- In every reachable state each stored transaction is one `submit_at` built from its
data: it carries the hash and the length `hash_and_length` gives the data, at least one
provided tag, and the priority, requires, provides and propagate of a `Valid` answer of
`validate_transaction` on the data; and it is in `pool2` exactly when its data
`is_even`. -/
theorem reachable_txs_validated (laws : ops.Laws) (h : Reachable api ops opts p) :
    ∀ t ∈ p.txs, (t.hash, t.bytes) = api.hashAndLength t.data ∧ t.provides ≠ [] ∧
      (∃ atBlock v, api.validateTransaction atBlock t.data = .ok (.valid v) ∧ t.priority = v.priority ∧
        t.requires = v.requires ∧ t.provides = v.provides ∧ t.propagate = v.propagate) ∧
      (t ∈ p.pool2.txs ↔ api.isEven t.data = some true) := by
  have hr := h.routed laws (P := fun t => (t.hash, t.bytes) = api.hashAndLength t.data ∧ t.provides ≠ [] ∧
      ∃ atBlock v, api.validateTransaction atBlock t.data = .ok (.valid v) ∧ t.priority = v.priority ∧
        t.requires = v.requires ∧ t.provides = v.provides ∧ t.propagate = v.propagate) fun hc => by
    obtain ⟨-, v, hv, hne, rfl⟩ := checkExtrinsic_eq_ok_iff.mp hc
    exact ⟨rfl, hne, _, v, hv, rfl, rfl, rfl, rfl⟩
  intro t ht
  rcases List.mem_append.mp ht with ht | ht
  · obtain ⟨hP, hodd⟩ := hr.1 t ht
    exact ⟨hP.1, hP.2.1, hP.2.2, fun h2 => absurd (hr.2 t h2).2 hodd, fun heven => absurd heven hodd⟩
  · obtain ⟨hP, heven⟩ := hr.2 t ht
    exact ⟨hP.1, hP.2.1, hP.2.2, fun _ => heven, fun _ => ht⟩

theorem reachable_txs_validated_pool2 :
    readyBase.Laws ∧ Reachable parityApi readyBase defaultOptions submittedToPool2 ∧
    ∀ t ∈ submittedToPool2.txs, (t.hash, t.bytes) = parityApi.hashAndLength t.data ∧ t.provides ≠ [] ∧
      (∃ atBlock v, parityApi.validateTransaction atBlock t.data = .ok (.valid v) ∧ t.priority = v.priority ∧
        t.requires = v.requires ∧ t.provides = v.provides ∧ t.propagate = v.propagate) ∧
      (t ∈ submittedToPool2.pool2.txs ↔ parityApi.isEven t.data = some true) :=
  ⟨readyBase_laws, reachable_submittedToPool2, reachable_txs_validated readyBase_laws reachable_submittedToPool2⟩

end Validated

section ClearStale

variable [DecidableEq Hash] {api : ChainApi BlockId} {p p' : Pool Hash} {now t₁ t₂ : Nat} {blockId : BlockId}

/-- When `clear_stale` returns `Ok`, the block id resolved to a number `n`, and: each of
the four queues lost exactly the transactions whose hash is that of a stale transaction
(`valid_till < n`) of the ready queue of `pool` or of either future queue; each such hash
is banned; and so is every hash banned from the call's instant on, when `remove_invalid`
reads the clock no earlier than the call did. The ready queue of `pool2` is not
scanned. -/
theorem clearStale_removes_and_bans (h₁ : now ≤ t₁) (h₂ : now ≤ t₂)
    (hc : p.clearStale api now t₁ t₂ blockId = .ok p') :
    ∃ n, api.blockIdToNumber blockId = .ok (some n) ∧
      p'.pool = ⟨p.pool.ready.filter (·.hash ∉ p.clearedHashes (saturatedU64 n)),
        p.pool.future.filter (·.hash ∉ p.clearedHashes (saturatedU64 n))⟩ ∧
      p'.pool2 = ⟨p.pool2.ready.filter (·.hash ∉ p.clearedHashes (saturatedU64 n)),
        p.pool2.future.filter (·.hash ∉ p.clearedHashes (saturatedU64 n))⟩ ∧
      ∀ h, h ∈ p.clearedHashes (saturatedU64 n) ∨ p.rotator.BannedSince now h → p'.rotator.IsBanned h := by
  obtain ⟨n, hn, rfl⟩ := Pool.clearStale_eq_ok.mp hc
  exact ⟨n, hn, Pool.clearStaleAt_queues.1, Pool.clearStaleAt_queues.2,
    fun _ hh => Pool.clearStaleAt_isBanned h₁ h₂ hh.symm⟩

def staleReadyInBoth : Pool Nat := ⟨⟨[{ validTillZero with hash := 8 }], []⟩, ⟨[validTillZero], []⟩, ⟨30, []⟩⟩

/-- At block 1, with the clock read at 1, 2 and 3, the stale transaction of `pool` is
removed and banned, and the one ready in `pool2` stays. -/
theorem clearStale_removes_and_bans_both :
    1 ≤ 2 ∧ 1 ≤ 3 ∧ staleReadyInBoth.clearStale everyBlockOne 1 2 3 0 =
      .ok ⟨⟨[], []⟩, ⟨[validTillZero], []⟩, ⟨30, [(8, 2)]⟩⟩ ∧
    ∃ n, everyBlockOne.blockIdToNumber 0 = .ok (some n) ∧
      (⟨⟨[], []⟩, ⟨[validTillZero], []⟩, ⟨30, [(8, 2)]⟩⟩ : Pool Nat).pool =
        ⟨staleReadyInBoth.pool.ready.filter (·.hash ∉ staleReadyInBoth.clearedHashes (saturatedU64 n)),
          staleReadyInBoth.pool.future.filter (·.hash ∉ staleReadyInBoth.clearedHashes (saturatedU64 n))⟩ ∧
      (⟨⟨[], []⟩, ⟨[validTillZero], []⟩, ⟨30, [(8, 2)]⟩⟩ : Pool Nat).pool2 =
        ⟨staleReadyInBoth.pool2.ready.filter (·.hash ∉ staleReadyInBoth.clearedHashes (saturatedU64 n)),
          staleReadyInBoth.pool2.future.filter (·.hash ∉ staleReadyInBoth.clearedHashes (saturatedU64 n))⟩ ∧
      ∀ h, h ∈ staleReadyInBoth.clearedHashes (saturatedU64 n) ∨ staleReadyInBoth.rotator.BannedSince 1 h →
        (⟨30, [(8, 2)]⟩ : Rotator Nat).IsBanned h :=
  have hc : staleReadyInBoth.clearStale everyBlockOne 1 2 3 0 =
      .ok ⟨⟨[], []⟩, ⟨[validTillZero], []⟩, ⟨30, [(8, 2)]⟩⟩ := by rfl
  ⟨by decide, by decide, hc, clearStale_removes_and_bans (by decide) (by decide) hc⟩

end ClearStale

section SubmitOne

variable [DecidableEq Hash] (api : FullChainApi Hash BlockId) (ops : BaseOps Hash) (opts : Options)

/-- `submit_one`: `submit_at` of the one extrinsic, then the result it pops, which the
`expect` requires to exist, returned by its `?`. The pool is the one `submit_at` leaves,
also when that result is an error. -/
def submitOne (p : Pool Hash) (now now₂ : Nat) (atBlock : BlockId) (xt : Bytes) :
    Outcome (PoolError BlockId) (Pool Hash × Except (PoolError BlockId) Hash) :=
  match p.submitAt api ops opts now now₂ atBlock [xt] with
  | .error e => .err e
  | .ok (p', results) =>
    match results.getLast? with
    | some r => .ok (p', r)
    | none => .panicked

end SubmitOne

section Bans

variable [DecidableEq Hash] {api : FullChainApi Hash BlockId} {ops : BaseOps Hash} {opts : Options}
  {now now₂ : Nat} {h : Hash}

omit [DecidableEq Hash] in
theorem Pool.importChecked_rotator (p : Pool Hash) (tx : Transaction Hash) :
    (p.importChecked api ops tx).1.rotator = p.rotator := by
  unfold Pool.importChecked
  split_ifs <;> split <;> rfl

theorem Pool.foldl_submitOne_rotator (rot : Rotator Hash) (atBlock : BlockId) (n : Nat) :
    ∀ (xts : List Bytes) (acc : Pool Hash × List (Except (PoolError BlockId) Hash)),
      (xts.foldl (Pool.submitOne api ops rot atBlock n) acc).1.rotator = acc.1.rotator
  | [], _ => rfl
  | xt :: xts, acc => by
    rw [List.foldl_cons, Pool.foldl_submitOne_rotator rot atBlock n xts]
    unfold Pool.submitOne
    split
    · rfl
    · exact Pool.importChecked_rotator _ _

theorem enforceLimitsByPool_rotator (b : BasePool Hash) (r : Rotator Hash) (now : Nat) :
    ∃ hs, (enforceLimitsByPool ops opts b r now).2.1 = r.ban now hs := by
  unfold enforceLimitsByPool
  split_ifs
  exacts [⟨_, rfl⟩, ⟨[], rfl⟩]

/-- `submit_at` only bans: the rotator it leaves is the one it started with, after the
bans of the limits at their two instants. -/
theorem Pool.submitAt_rotator {p q : Pool Hash} {atBlock : BlockId} {xts : List Bytes}
    {rs : List (Except (PoolError BlockId) Hash)} (hs : p.submitAt api ops opts now now₂ atBlock xts = .ok (q, rs)) :
    ∃ hs₁ hs₂, q.rotator = (p.rotator.ban now hs₁).ban now₂ hs₂ := by
  obtain ⟨n, -, rfl, -⟩ := Pool.submitAt_eq_ok.mp hs
  set p₁ := (xts.foldl (Pool.submitOne api ops p.rotator atBlock n) (p, [])).1
  obtain ⟨hs₁, h₁⟩ : ∃ hs, (enforceLimitsByPool ops opts p₁.pool p₁.rotator now).2.1 = p₁.rotator.ban now hs :=
    enforceLimitsByPool_rotator _ _ now
  obtain ⟨hs₂, h₂⟩ : ∃ hs, (enforceLimitsByPool ops opts p₁.pool2
      (enforceLimitsByPool ops opts p₁.pool p₁.rotator now).2.1 now₂).2.1 =
        (enforceLimitsByPool ops opts p₁.pool p₁.rotator now).2.1.ban now₂ hs :=
    enforceLimitsByPool_rotator _ _ now₂
  refine ⟨hs₁, hs₂, ?_⟩
  rw [← Pool.foldl_submitOne_rotator p.rotator atBlock n xts (p, []), ← h₁, ← h₂]
  rfl

/-- `submit_at` admits no banned transaction: every transaction in the pool it returns
was there before, or was built from one of the submitted extrinsics and its hash was not
banned when the call started. -/
theorem submitAt_admits_no_banned (laws : ops.Laws) {p q : Pool Hash} {atBlock : BlockId} {xts : List Bytes}
    {rs : List (Except (PoolError BlockId) Hash)} (hs : p.submitAt api ops opts now now₂ atBlock xts = .ok (q, rs)) :
    ∀ t ∈ q.txs, t ∈ p.txs ∨ (t.data ∈ xts ∧ ¬ p.rotator.IsBanned t.hash) := by
  intro t ht
  refine ((Pool.submitAt_within laws hs).mem_txs ht).imp_right fun ⟨xt, hxt, n, hc⟩ => ?_
  obtain ⟨hb, v, -, -, rfl⟩ := checkExtrinsic_eq_ok_iff.mp hc
  exact ⟨hxt, hb⟩

theorem submitAt_admits_no_banned_refused :
    readyBase.Laws ∧
      (⟨⟨[], []⟩, ⟨[], []⟩, ⟨30, [(1, 5)]⟩⟩ : Pool Nat).submitAt parityApi readyBase defaultOptions 0 0 0
          [[2], [3, 3]] =
        .ok (⟨⟨[{ evenTransaction with data := [3, 3], bytes := 2, hash := 2 }], []⟩, ⟨[], []⟩, ⟨30, [(1, 5)]⟩⟩,
          [.error .temporarilyBanned, .ok 2]) ∧
      ∀ t ∈ (⟨⟨[{ evenTransaction with data := [3, 3], bytes := 2, hash := 2 }], []⟩, ⟨[], []⟩,
          ⟨30, [(1, 5)]⟩⟩ : Pool Nat).txs,
        t ∈ (⟨⟨[], []⟩, ⟨[], []⟩, ⟨30, [(1, 5)]⟩⟩ : Pool Nat).txs ∨
          (t.data ∈ [[2], [3, 3]] ∧ ¬ (⟨30, [(1, 5)]⟩ : Rotator Nat).IsBanned t.hash) :=
  have hs : (⟨⟨[], []⟩, ⟨[], []⟩, ⟨30, [(1, 5)]⟩⟩ : Pool Nat).submitAt parityApi readyBase defaultOptions 0 0 0
      [[2], [3, 3]] =
      .ok (⟨⟨[{ evenTransaction with data := [3, 3], bytes := 2, hash := 2 }], []⟩, ⟨[], []⟩, ⟨30, [(1, 5)]⟩⟩,
        [.error .temporarilyBanned, .ok 2]) := by rfl
  ⟨readyBase_laws, hs, submitAt_admits_no_banned readyBase_laws hs⟩

theorem Pool.pruneTags_isBanned (p : Pool Hash) {ts : PruneInstants} (hts : ts.Ordered)
    (hlast : ts.clear ≤ ts.ban + p.rotator.banTime) (atBlock : BlockId) (tags : List Tag)
    {known : List Hash} (hk : h ∈ known) :
    (p.pruneTags api ops opts ts atBlock tags known).1.rotator.IsBanned h := by
  obtain ⟨h₁, h₂, h₃, h₄, h₅⟩ := hts
  have hb : (p.pruneBase ops ts.ban tags known).1.rotator.BannedSince ts.ban h :=
    Rotator.bannedSince_ban_of_mem le_rfl hk
  rcases Pool.pruneTags_cases p ts atBlock tags known with hr | ⟨q, rs, hs, hr⟩
  · exact hr ▸ hb.isBanned
  obtain ⟨hs₁, hs₂, hq⟩ := Pool.submitAt_rotator hs
  have hqb : q.rotator.BannedSince ts.ban h := hq ▸ (hb.ban h₁ hs₁).ban (by omega) hs₂
  rcases hr with hr | hr
  · exact hr ▸ hqb.isBanned
  · obtain ⟨n, -, hn⟩ := Pool.clearStale_eq_ok.mp hr
    rw [← hn]
    exact (Pool.clearStaleAt_bannedSince (by omega) (by omega) (by omega) (by rw [hq]; exact hlast)
      hqb).isBanned

/-- Whatever `prune_tags` returns, it leaves every known imported hash banned, when the
clock does not run backwards during the call and the ban has not run out when
`clear_stale` reads it. -/
theorem pruneTags_bans_known (p : Pool Hash) (ts : PruneInstants) (hts : ts.Ordered)
    (hlast : ts.clear ≤ ts.ban + p.rotator.banTime) (atBlock : BlockId) (tags : List Tag) (known : List Hash) :
    ∀ h ∈ known, (p.pruneTags api ops opts ts atBlock tags known).1.rotator.IsBanned h :=
  fun _ hk => Pool.pruneTags_isBanned p hts hlast atBlock tags hk

theorem pruneTags_bans_known_pool2 :
    tickingClock.Ordered ∧ tickingClock.clear ≤ tickingClock.ban + submittedToPool2.rotator.banTime ∧
      1 ∈ [1] ∧
      (submittedToPool2.pruneTags parityApi readyBase defaultOptions tickingClock 2 [[1]] [1]).1.rotator.IsBanned 1 :=
  ⟨by decide, by decide, List.mem_singleton_self 1,
    pruneTags_bans_known submittedToPool2 tickingClock (by decide) (by decide) 2 [[1]] [1] 1
      (List.mem_singleton_self 1)⟩

theorem BasePool.mem_byHash_hashes {b : BasePool Hash} {hashes : List Hash}
    (hh : h ∈ hashes) (ht : h ∈ b.txs.map (·.hash)) : h ∈ (b.byHash hashes).filterMap (·.map (·.hash)) := by
  obtain ⟨t, htm, rfl⟩ := List.mem_map.mp ht
  obtain ⟨t', hf⟩ := Option.isSome_iff_exists.mp
    ((List.find?_isSome (p := fun x => decide (x.hash = t.hash))).mpr ⟨t, htm, by simp⟩)
  have ht' : t'.hash = t.hash := by simpa using List.find?_some hf
  exact List.mem_filterMap.mpr ⟨_, List.mem_map_of_mem _ hh, by rw [hf, Option.map_some', ht']⟩

/-- `prune` bans every extrinsic of the block that either base pool holds, whatever it
returns: the hashes `by_hash` finds in `pool` and in `pool2` are the known imported
hashes it hands to `prune_tags`, though the tags it hands along are taken from `pool`
alone. -/
theorem prune_bans_included (p : Pool Hash) (ts : PruneInstants) (hts : ts.Ordered)
    (hlast : ts.clear ≤ ts.ban + p.rotator.banTime) (atBlock parent : BlockId) (extrinsics : List Bytes) :
    ∀ xt ∈ extrinsics, (api.hashAndLength xt).1 ∈ p.txs.map (·.hash) →
      (p.prune api ops opts ts atBlock parent extrinsics).1.rotator.IsBanned (api.hashAndLength xt).1 := by
  intro xt hxt hin
  apply Pool.pruneTags_isBanned p hts hlast
  rw [Pool.pruneArgs_known, List.mem_append]
  have hh := List.mem_map_of_mem (fun xt => (api.hashAndLength xt).1) hxt
  rw [Pool.txs, List.map_append, List.mem_append] at hin
  exact hin.imp (BasePool.mem_byHash_hashes hh) (BasePool.mem_byHash_hashes hh)

theorem prune_bans_included_pool2 :
    tickingClock.Ordered ∧ tickingClock.clear ≤ tickingClock.ban + submittedToPool2.rotator.banTime ∧
      [2] ∈ [[2]] ∧ (parityApi.hashAndLength [2]).1 ∈ submittedToPool2.txs.map (·.hash) ∧
      (submittedToPool2.prune parityApi readyBase defaultOptions tickingClock 2 1 [[2]]).1.rotator.IsBanned
        (parityApi.hashAndLength [2]).1 :=
  ⟨by decide, by decide, by decide, by decide,
    prune_bans_included submittedToPool2 tickingClock (by decide) (by decide) 2 1 [[2]] [2] (by decide)
      (by decide)⟩

end Bans

end Substrate.TransactionPool
