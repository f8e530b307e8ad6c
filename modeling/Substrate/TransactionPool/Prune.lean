import Substrate.TransactionPool.Pool

/-! `submit_at`, `prune_tags` and `prune` of `transaction-pool/graph/src/pool.rs`. The
base pool's `import`, `prune_tags` and `enforce_limits` are not among the files given:
they are the parameters `BaseOps`, with the contract `BaseOps.Laws` the pool relies on.
The listener and the import notifications are not modelled. Each read of the clock is
an instant of its own, given with the call. -/
namespace Substrate.TransactionPool

variable {Hash BlockId : Type}

structure ValidTransaction where
  priority : Nat
  requires : List Tag
  provides : List Tag
  longevity : Nat
  propagate : Bool
  deriving DecidableEq, Repr

inductive TransactionValidity where
  | invalid (code : Int)
  | valid (validity : ValidTransaction)
  | unknown (code : Int)
  deriving DecidableEq, Repr

/-- The rest of `ChainApi`, and `is_even` of its extrinsics, which are read as their
encodings. -/
structure FullChainApi (Hash BlockId : Type) extends ChainApi BlockId where
  validateTransaction : BlockId → Bytes → Except String TransactionValidity
  blockIdToHash : BlockId → Except String (Option Bytes)
  hashAndLength : Bytes → Hash × Nat
  isEven : Bytes → Option Bool

structure Limit where
  count : Nat
  totalBytes : Nat

/-- Modelled from the spec: a limit is exceeded when the count or the total bytes is
above it. -/
def Limit.isExceeded (l : Limit) (count bytes : Nat) : Bool :=
  l.count < count || l.totalBytes < bytes

structure Options where
  ready : Limit
  future : Limit

def BasePool.txs (b : BasePool Hash) : List (Transaction Hash) := b.ready ++ b.future

def Pool.txs (p : Pool Hash) : List (Transaction Hash) := p.pool.txs ++ p.pool2.txs

/-- Modelled from the spec: `by_hash`, one entry per hash, the transaction of either
queue with that hash, if any. -/
def BasePool.byHash [DecidableEq Hash] (b : BasePool Hash) (hashes : List Hash) : List (Option (Transaction Hash)) :=
  hashes.map fun h => b.txs.find? (·.hash = h)

/-- Modelled from the spec: the total bytes of a queue, as `status` reports them. -/
def totalBytes (txs : List (Transaction Hash)) : Nat := txs.foldr (fun tx n => tx.bytes + n) 0

/-- The base pool's operations the pool calls: `import`, `prune_tags` (of its status
the pool reads the `pruned` transactions here) and `enforce_limits` (the transactions
it removed). -/
structure BaseOps (Hash : Type) where
  importTx : BasePool Hash → Transaction Hash → Except String (BasePool Hash)
  pruneTags : BasePool Hash → List Tag → BasePool Hash × List (Transaction Hash)
  enforceLimits : BasePool Hash → Limit → Limit → BasePool Hash × List (Transaction Hash)

/-- Modelled from the spec: what the pool relies on of the base pool. An import adds
at most the imported transaction; pruning and the limits only remove or move between
the queues, and a pruned transaction is gone. -/
structure BaseOps.Laws (ops : BaseOps Hash) : Prop where
  importTx_txs : ∀ b tx b', ops.importTx b tx = .ok b' → ∀ t ∈ b'.txs, t ∈ b.txs ∨ t = tx
  pruneTags_txs : ∀ b tags, ∀ t ∈ (ops.pruneTags b tags).1.txs, t ∈ b.txs
  pruned_mem : ∀ b tags, ∀ t ∈ (ops.pruneTags b tags).2, t ∈ b.txs
  pruned_not_mem : ∀ b tags, ∀ t ∈ (ops.pruneTags b tags).2, t ∉ (ops.pruneTags b tags).1.txs
  enforceLimits_txs : ∀ b rl fl, ∀ t ∈ (ops.enforceLimits b rl fl).1.txs, t ∈ b.txs

/-- The instants at which one `prune_tags` call reads the clock, in the order it reads
them: the ban of the known hashes, the limit bans of `submit_at` over `pool` and over
`pool2`, `clear_stale`, and its two `remove_invalid` calls. -/
structure PruneInstants where
  ban : Nat
  limits : Nat
  limits2 : Nat
  clear : Nat
  remove : Nat
  futureRemove : Nat
  deriving DecidableEq, Repr

def PruneInstants.Ordered (ts : PruneInstants) : Prop :=
  ts.ban ≤ ts.limits ∧ ts.limits ≤ ts.limits2 ∧ ts.limits2 ≤ ts.clear ∧ ts.clear ≤ ts.remove ∧
    ts.remove ≤ ts.futureRemove

instance (ts : PruneInstants) : Decidable ts.Ordered :=
  inferInstanceAs (Decidable (_ ∧ _))

def saturatingAddU64 (a b : Nat) : Nat := min (a + b) (2 ^ 64 - 1)

section Calls

variable [DecidableEq Hash] (api : FullChainApi Hash BlockId) (ops : BaseOps Hash) (opts : Options)

/-- The first closure of `submit_at`, on one extrinsic: the ban check, the validation,
and the transaction it builds. -/
def checkExtrinsic (rotator : Rotator Hash) (atBlock : BlockId) (blockNumber : Nat) (xt : Bytes) :
    Except (PoolError BlockId) (Transaction Hash) :=
  if rotator.IsBanned (api.hashAndLength xt).1 then .error .temporarilyBanned
  else
    match api.validateTransaction atBlock xt with
    | .error e => .error (.chain e)
    | .ok (.valid v) =>
      if v.provides.isEmpty then .error .noTagsProvided
      else .ok
        { data := xt
          bytes := (api.hashAndLength xt).2
          hash := (api.hashAndLength xt).1
          priority := v.priority
          requires := v.requires
          provides := v.provides
          propagate := v.propagate
          validTill := saturatingAddU64 (saturatedU64 blockNumber) v.longevity }
    | .ok (.invalid e) => .error (.invalidTransaction e)
    | .ok (.unknown e) => .error (.unknownTransactionValidity e)

def Pool.importChecked (p : Pool Hash) (tx : Transaction Hash) :
    Pool Hash × Except (PoolError BlockId) Hash :=
  if api.isEven tx.data = some true then
    match ops.importTx p.pool2 tx with
    | .ok b => ({ p with pool2 := b }, .ok tx.hash)
    | .error e => (p, .error (.base e))
  else
    match ops.importTx p.pool tx with
    | .ok b => ({ p with pool := b }, .ok tx.hash)
    | .error e => (p, .error (.base e))

def Pool.submitOne (rotator : Rotator Hash) (atBlock : BlockId) (blockNumber : Nat)
    (acc : Pool Hash × List (Except (PoolError BlockId) Hash)) (xt : Bytes) :
    Pool Hash × List (Except (PoolError BlockId) Hash) :=
  match checkExtrinsic api rotator atBlock blockNumber xt with
  | .error e => (acc.1, acc.2 ++ [.error e])
  | .ok tx => ((acc.1.importChecked api ops tx).1, acc.2 ++ [(acc.1.importChecked api ops tx).2])

def enforceLimitsByPool (b : BasePool Hash) (r : Rotator Hash) (now : Nat) :
    BasePool Hash × Rotator Hash × List Hash :=
  if opts.ready.isExceeded b.ready.length (totalBytes b.ready) ||
      opts.future.isExceeded b.future.length (totalBytes b.future) then
    ((ops.enforceLimits b opts.ready opts.future).1,
      r.ban now ((ops.enforceLimits b opts.ready opts.future).2.map (·.hash)),
      (ops.enforceLimits b opts.ready opts.future).2.map (·.hash))
  else (b, r, [])

/-- `enforce_limits`: both base pools, and the hashes removed from either; each ban reads
the clock, at `now` and at `now₂`. -/
def Pool.enforceLimits (p : Pool Hash) (now now₂ : Nat) : Pool Hash × List Hash :=
  let e := enforceLimitsByPool ops opts p.pool p.rotator now
  let e2 := enforceLimitsByPool ops opts p.pool2 e.2.1 now₂
  (⟨e.1, e2.1, e2.2.1⟩, e.2.2 ++ e2.2.2)

def dropRemoved (removed : List Hash) : Except (PoolError BlockId) Hash → Except (PoolError BlockId) Hash
  | .ok h => if h ∈ removed then .error .immediatelyDropped else .ok h
  | other => other

/-- `submit_at`: one result per extrinsic, an imported hash that the limits then
removed becoming `ImmediatelyDropped`. The limits read the clock at `now` and `now₂`. -/
def Pool.submitAt (p : Pool Hash) (now now₂ : Nat) (atBlock : BlockId) (xts : List Bytes) :
    Except (PoolError BlockId) (Pool Hash × List (Except (PoolError BlockId) Hash)) := do
  let number ← (api.blockIdToNumber atBlock).mapError PoolError.chain
  let some number := number | throw (PoolError.invalidBlockId atBlock)
  let r := xts.foldl (Pool.submitOne api ops p.rotator atBlock number) (p, [])
  let e := r.1.enforceLimits ops opts now now₂
  pure (e.1, r.2.map (dropRemoved e.2))

def Pool.pruneBase (p : Pool Hash) (now : Nat) (tags : List Tag) (knownImportedHashes : List Hash) :
    Pool Hash × List (Transaction Hash) :=
  (⟨(ops.pruneTags p.pool tags).1, (ops.pruneTags p.pool2 tags).1,
    p.rotator.ban now knownImportedHashes⟩, (ops.pruneTags p.pool tags).2 ++ (ops.pruneTags p.pool2 tags).2)

/-- `prune_tags`. The pool is left as the call leaves it, also when it returns `Err`:
the pruning and the bans come first. -/
def Pool.pruneTags (p : Pool Hash) (ts : PruneInstants) (atBlock : BlockId) (tags : List Tag)
    (knownImportedHashes : List Hash) : Pool Hash × Except (PoolError BlockId) Unit :=
  let base := p.pruneBase ops ts.ban tags knownImportedHashes
  match base.1.submitAt api ops opts ts.limits ts.limits2 atBlock (base.2.map (·.data)) with
  | .error e => (base.1, .error e)
  | .ok (q, _) =>
    match api.blockIdToHash atBlock with
    | .error e => (q, .error (.chain e))
    | .ok none => (q, .error (.invalidBlockId atBlock))
    | .ok (some _) =>
      match q.clearStale api.toChainApi ts.clear ts.remove ts.futureRemove atBlock with
      | .error e => (q, .error e)
      | .ok q' => (q', .ok ())

/-- The tags and the known hashes `prune` passes to `prune_tags`: the extrinsics are
zipped with the lookups in `pool` followed by those in `pool2`. -/
def Pool.pruneArgs (p : Pool Hash) (parent : BlockId) (extrinsics : List Bytes) :
    List Tag × List Hash :=
  let hashes := extrinsics.map fun xt => (api.hashAndLength xt).1
  let inPool := p.pool.byHash hashes ++ p.pool2.byHash hashes
  ((extrinsics.zip inPool).foldl (fun tags e =>
      match e.2 with
      | some tx => tags ++ tx.provides
      | none =>
        match api.validateTransaction parent e.1 with
        | .ok (.valid v) => tags ++ v.provides
        | _ => tags) [],
    inPool.filterMap fun x => x.map (·.hash))

def Pool.prune (p : Pool Hash) (ts : PruneInstants) (atBlock parent : BlockId) (extrinsics : List Bytes) :
    Pool Hash × Except (PoolError BlockId) Unit :=
  p.pruneTags api ops opts ts atBlock (p.pruneArgs api parent extrinsics).1
    (p.pruneArgs api parent extrinsics).2

/-- The states a sequential run reaches from an empty pool through the public calls
(`prune` is a `prune_tags`, `submit_one` a `submit_at`). -/
inductive Reachable : Pool Hash → Prop
  | empty (banTime : Nat) : Reachable ⟨⟨[], []⟩, ⟨[], []⟩, ⟨banTime, []⟩⟩
  | submitAt {p p' : Pool Hash} {rs : List (Except (PoolError BlockId) Hash)} (now now₂ : Nat)
      (atBlock : BlockId) (xts : List Bytes) :
      Reachable p → p.submitAt api ops opts now now₂ atBlock xts = .ok (p', rs) → Reachable p'
  | pruneTags {p : Pool Hash} (ts : PruneInstants) (atBlock : BlockId) (tags : List Tag) (known : List Hash) :
      Reachable p → Reachable (p.pruneTags api ops opts ts atBlock tags known).1
  | clearStale {p p' : Pool Hash} (now t₁ t₂ : Nat) (atBlock : BlockId) :
      Reachable p → p.clearStale api.toChainApi now t₁ t₂ atBlock = .ok p' → Reachable p'
  | removeInvalid {p : Pool Hash} (now : Nat) (hashes : List Hash) :
      Reachable p → Reachable (p.removeInvalid now hashes).1

end Calls

/-- `q` holds what `p` held and transactions satisfying `new`, each of these in the
base pool its data routes it to. -/
def Pool.Within (api : FullChainApi Hash BlockId) (p q : Pool Hash) (new : Transaction Hash → Prop) :
    Prop :=
  (∀ t ∈ q.pool.txs, t ∈ p.pool.txs ∨ (new t ∧ api.isEven t.data ≠ some true)) ∧
  (∀ t ∈ q.pool2.txs, t ∈ p.pool2.txs ∨ (new t ∧ api.isEven t.data = some true))

section Within

variable {api : FullChainApi Hash BlockId} {ops : BaseOps Hash} {opts : Options}
  {p q r : Pool Hash} {new new' : Transaction Hash → Prop}

theorem Pool.Within.refl (p : Pool Hash) : p.Within api p new :=
  ⟨fun _ h => .inl h, fun _ h => .inl h⟩

theorem Pool.Within.mono (h : p.Within api q new) (hn : ∀ t, new t → new' t) : p.Within api q new' :=
  ⟨fun t ht => (h.1 t ht).imp_right fun h => ⟨hn t h.1, h.2⟩,
    fun t ht => (h.2 t ht).imp_right fun h => ⟨hn t h.1, h.2⟩⟩

theorem Pool.Within.trans (h₁ : p.Within api q new) (h₂ : q.Within api r new) : p.Within api r new :=
  ⟨fun t ht => (h₂.1 t ht).elim (h₁.1 t) .inr, fun t ht => (h₂.2 t ht).elim (h₁.2 t) .inr⟩

theorem Pool.Within.of_subset (h₁ : ∀ t ∈ q.pool.txs, t ∈ p.pool.txs) (h₂ : ∀ t ∈ q.pool2.txs, t ∈ p.pool2.txs) :
    p.Within api q new :=
  ⟨fun t ht => .inl (h₁ t ht), fun t ht => .inl (h₂ t ht)⟩

theorem Pool.Within.mem_txs (h : p.Within api q new) {t : Transaction Hash} (ht : t ∈ q.txs) :
    t ∈ p.txs ∨ new t := by
  rcases List.mem_append.mp ht with ht | ht
  · exact (h.1 t ht).imp (fun h => List.mem_append_left _ h) And.left
  · exact (h.2 t ht).imp (fun h => List.mem_append_right _ h) And.left

theorem Pool.importChecked_within (laws : ops.Laws) (p : Pool Hash) (tx : Transaction Hash) :
    p.Within api (p.importChecked api ops tx).1 (· = tx) ∧
      (p.importChecked api ops tx).1.rotator = p.rotator := by
  unfold Pool.importChecked
  split_ifs with he
  · split
    next b hb =>
      exact ⟨⟨fun t ht => .inl ht, fun t ht => (laws.importTx_txs _ _ _ hb t ht).imp_right
        fun h => ⟨h, h ▸ he⟩⟩, rfl⟩
    next => exact ⟨.refl p, rfl⟩
  · split
    next b hb =>
      exact ⟨⟨fun t ht => (laws.importTx_txs _ _ _ hb t ht).imp_right fun h => ⟨h, h ▸ he⟩,
        fun t ht => .inl ht⟩, rfl⟩
    next => exact ⟨.refl p, rfl⟩

theorem Pool.importChecked_result (api : FullChainApi Hash BlockId) (ops : BaseOps Hash) (p : Pool Hash)
    (tx : Transaction Hash) :
    (p.importChecked api ops tx).2 = .ok tx.hash ∨ ∃ s, (p.importChecked api ops tx).2 = .error (.base s) := by
  unfold Pool.importChecked
  split_ifs <;> split <;> simp

end Within

section Steps

variable [DecidableEq Hash] {api : FullChainApi Hash BlockId} {ops : BaseOps Hash} {opts : Options}
  {p p' : Pool Hash} {new : Transaction Hash → Prop}

theorem checkExtrinsic_eq_ok {r : Rotator Hash} {atBlock : BlockId} {n : Nat} {xt : Bytes}
    {tx : Transaction Hash} (h : checkExtrinsic api r atBlock n xt = .ok tx) :
    tx.data = xt ∧ tx.hash = (api.hashAndLength xt).1 ∧ ¬ r.IsBanned tx.hash := by
  unfold checkExtrinsic at h
  split_ifs at h with hb
  split at h
  all_goals try split_ifs at h
  all_goals cases h
  exact ⟨rfl, rfl, hb⟩

/-- The block number only enters the transaction built: whether an extrinsic fails, and
how, does not depend on it. -/
theorem checkExtrinsic_eq_error_iff {r : Rotator Hash} {atBlock : BlockId} {n n' : Nat} {xt : Bytes}
    {e : PoolError BlockId} :
    checkExtrinsic api r atBlock n xt = .error e ↔ checkExtrinsic api r atBlock n' xt = .error e := by
  unfold checkExtrinsic
  split_ifs
  · rfl
  · split <;> (try split_ifs) <;> simp

theorem Pool.submitOne_spec (laws : ops.Laws) (rot : Rotator Hash) (atBlock : BlockId) (n : Nat)
    (acc : Pool Hash × List (Except (PoolError BlockId) Hash)) (xt : Bytes) :
    acc.1.Within api (Pool.submitOne api ops rot atBlock n acc xt).1
        (fun t => checkExtrinsic api rot atBlock n xt = .ok t) ∧
      (Pool.submitOne api ops rot atBlock n acc xt).1.rotator = acc.1.rotator ∧
      ∃ res, (Pool.submitOne api ops rot atBlock n acc xt).2 = acc.2 ++ [res] ∧
        ∀ e, res = .error e → checkExtrinsic api rot atBlock n xt = .error e ∨ ∃ s, e = .base s := by
  unfold Pool.submitOne
  split
  next e he => exact ⟨.refl _, rfl, _, rfl, fun e' h => .inl (by cases h; exact he)⟩
  next tx htx =>
    obtain ⟨hw, hr⟩ := acc.1.importChecked_within laws tx
    refine ⟨hw.mono fun t ht => ht ▸ htx, hr, _, rfl, fun e he => .inr ?_⟩
    rcases Pool.importChecked_result api ops acc.1 tx with h | ⟨s, h⟩ <;> rw [h] at he <;> cases he
    exact ⟨s, rfl⟩

theorem Pool.foldl_submitOne (laws : ops.Laws) (rot : Rotator Hash) (atBlock : BlockId) (n : Nat) :
    ∀ (xts : List Bytes) (acc : Pool Hash × List (Except (PoolError BlockId) Hash)),
      acc.1.Within api (xts.foldl (Pool.submitOne api ops rot atBlock n) acc).1
          (fun t => ∃ xt ∈ xts, checkExtrinsic api rot atBlock n xt = .ok t) ∧
        (xts.foldl (Pool.submitOne api ops rot atBlock n) acc).1.rotator = acc.1.rotator ∧
        ∃ rs, (xts.foldl (Pool.submitOne api ops rot atBlock n) acc).2 = acc.2 ++ rs ∧
          List.Forall₂ (fun xt res => ∀ e, res = .error e →
            checkExtrinsic api rot atBlock n xt = .error e ∨ ∃ s, e = .base s) xts rs
  | [], acc => ⟨.refl _, rfl, [], (List.append_nil _).symm, .nil⟩
  | xt :: xts, acc => by
    obtain ⟨hw₁, hr₁, res, hres, hR⟩ := Pool.submitOne_spec laws rot atBlock n acc xt
    obtain ⟨hw₂, hr₂, rs, hrs, hF⟩ := Pool.foldl_submitOne laws rot atBlock n xts
      (Pool.submitOne api ops rot atBlock n acc xt)
    refine ⟨(hw₁.mono fun t h => ⟨xt, List.mem_cons_self _ _, h⟩).trans
      (hw₂.mono fun t ⟨x, hx, h⟩ => ⟨x, List.mem_cons_of_mem _ hx, h⟩), hr₂.trans hr₁, res :: rs, ?_,
      .cons hR hF⟩
    rw [List.foldl_cons, hrs, hres, List.append_assoc, List.singleton_append]

theorem enforceLimitsByPool_txs (laws : ops.Laws) (b : BasePool Hash) (r : Rotator Hash) (now : Nat) :
    ∀ t ∈ (enforceLimitsByPool ops opts b r now).1.txs, t ∈ b.txs := by
  unfold enforceLimitsByPool
  split_ifs
  · exact laws.enforceLimits_txs _ _ _
  · exact fun _ h => h

theorem Pool.enforceLimits_within (laws : ops.Laws) (p : Pool Hash) (now now₂ : Nat) :
    p.Within api (p.enforceLimits ops opts now now₂).1 fun _ => False :=
  .of_subset (enforceLimitsByPool_txs laws _ _ _) (enforceLimitsByPool_txs laws _ _ _)

theorem Pool.submitAt_eq_ok {now now₂ : Nat} {atBlock : BlockId} {xts : List Bytes}
    {rs : List (Except (PoolError BlockId) Hash)} :
    p.submitAt api ops opts now now₂ atBlock xts = .ok (p', rs) ↔
      ∃ number, api.blockIdToNumber atBlock = .ok (some number) ∧
        ((xts.foldl (Pool.submitOne api ops p.rotator atBlock number) (p, [])).1.enforceLimits ops opts
            now now₂).1 = p' ∧
        (xts.foldl (Pool.submitOne api ops p.rotator atBlock number) (p, [])).2.map
            (dropRemoved ((xts.foldl (Pool.submitOne api ops p.rotator atBlock number) (p, [])).1.enforceLimits
              ops opts now now₂).2) = rs := by
  unfold Pool.submitAt
  cases api.blockIdToNumber atBlock with
  | error e => simp [Except.mapError, bind, Except.bind]
  | ok number =>
    cases number with
    | none => simp [Except.mapError, bind, Except.bind, throw, throwThe, MonadExceptOf.throw]
    | some number => simp [Except.mapError, bind, Except.bind, pure, Except.pure]

theorem Pool.submitAt_within (laws : ops.Laws) {now now₂ : Nat} {atBlock : BlockId} {xts : List Bytes}
    {rs : List (Except (PoolError BlockId) Hash)}
    (h : p.submitAt api ops opts now now₂ atBlock xts = .ok (p', rs)) :
    p.Within api p' fun t => ∃ xt ∈ xts, ∃ n, checkExtrinsic api p.rotator atBlock n xt = .ok t := by
  obtain ⟨n, -, rfl, -⟩ := Pool.submitAt_eq_ok.mp h
  exact ((Pool.foldl_submitOne laws p.rotator atBlock n xts (p, [])).1.mono
    fun t ⟨xt, hxt, h⟩ => ⟨xt, hxt, n, h⟩).trans ((Pool.enforceLimits_within laws _ now now₂).mono fun _ h => h.elim)

theorem Pool.submitAt_invalid {now now₂ : Nat} {atBlock : BlockId} {xts : List Bytes}
    {rs : List (Except (PoolError BlockId) Hash)} (laws : ops.Laws)
    (h : p.submitAt api ops opts now now₂ atBlock xts = .ok (p', rs)) {xt : Bytes} {c : Int}
    (hm : (xt, .error (.invalidTransaction c)) ∈ xts.zip rs) :
    ∃ n, checkExtrinsic api p.rotator atBlock n xt = .error (.invalidTransaction c) := by
  obtain ⟨n, -, -, rfl⟩ := Pool.submitAt_eq_ok.mp h
  obtain ⟨-, -, rs₀, hrs, hF⟩ := Pool.foldl_submitOne laws p.rotator atBlock n xts (p, [])
  rw [hrs, List.nil_append, List.zip_map_right, List.mem_map] at hm
  obtain ⟨⟨x, r⟩, hxr, he⟩ := hm
  obtain ⟨rfl, hr⟩ := Prod.mk.inj he
  refine ⟨n, ?_⟩
  cases r with
  | ok hash =>
    simp only [dropRemoved] at hr
    split_ifs at hr
    cases hr
  | error e =>
    cases hr
    exact ((List.forall₂_iff_zip.mp hF).2 hxr _ rfl).resolve_right (by simp)

theorem Pool.clearStale_within {now t₁ t₂ : Nat} {atBlock : BlockId}
    (h : p.clearStale api.toChainApi now t₁ t₂ atBlock = .ok p') : p.Within api p' fun _ => False := by
  obtain ⟨n, -, rfl⟩ := Pool.clearStale_eq_ok.mp h
  obtain ⟨h₁, h₂⟩ := @Pool.clearStaleAt_queues Hash _ p now t₁ t₂ (saturatedU64 n)
  refine .of_subset (fun t ht => ?_) (fun t ht => ?_)
  · rw [h₁] at ht
    simp only [BasePool.txs, List.mem_append, List.mem_filter] at ht ⊢
    exact ht.imp And.left And.left
  · rw [h₂] at ht
    simp only [BasePool.txs, List.mem_append, List.mem_filter] at ht ⊢
    exact ht.imp And.left And.left

theorem Pool.removeInvalid_within (p : Pool Hash) (now : Nat) (hashes : List Hash) :
    p.Within api (p.removeInvalid now hashes).1 fun _ => False := by
  refine .of_subset (fun t ht => ?_) (fun t ht => ?_) <;>
  · simp only [Pool.removeInvalid, BasePool.removeInvalid, BasePool.txs, List.mem_append,
      List.mem_filter] at ht ⊢
    exact ht.imp And.left And.left

theorem Pool.pruneBase_within (laws : ops.Laws) (p : Pool Hash) (now : Nat) (tags : List Tag)
    (known : List Hash) : p.Within api (p.pruneBase ops now tags known).1 fun _ => False :=
  .of_subset (laws.pruneTags_txs _ _) (laws.pruneTags_txs _ _)

/-- The pool `prune_tags` leaves: the one its base pruning left when `submit_at` fails,
otherwise the one `submit_at` returned, or what `clear_stale` made of it. -/
theorem Pool.pruneTags_cases (p : Pool Hash) (ts : PruneInstants) (atBlock : BlockId) (tags : List Tag)
    (known : List Hash) :
    (p.pruneTags api ops opts ts atBlock tags known).1 = (p.pruneBase ops ts.ban tags known).1 ∨
      ∃ q rs, (p.pruneBase ops ts.ban tags known).1.submitAt api ops opts ts.limits ts.limits2 atBlock
          ((p.pruneBase ops ts.ban tags known).2.map (·.data)) = .ok (q, rs) ∧
        ((p.pruneTags api ops opts ts atBlock tags known).1 = q ∨
          q.clearStale api.toChainApi ts.clear ts.remove ts.futureRemove atBlock =
            .ok (p.pruneTags api ops opts ts atBlock tags known).1) := by
  unfold Pool.pruneTags
  dsimp only
  split
  · exact .inl rfl
  next q rs hs =>
    refine .inr ⟨q, rs, hs, ?_⟩
    split
    · exact .inl rfl
    · exact .inl rfl
    split
    · exact .inl rfl
    · next hc => exact .inr hc

/-- `prune_tags` keeps only what its base pruning kept and transactions that the check
of a pruned transaction's data built on resubmission. -/
theorem Pool.pruneTags_within (laws : ops.Laws) (p : Pool Hash) (ts : PruneInstants) (atBlock : BlockId)
    (tags : List Tag) (known : List Hash) :
    (p.pruneBase ops ts.ban tags known).1.Within api (p.pruneTags api ops opts ts atBlock tags known).1
      fun t => ∃ tx ∈ (p.pruneBase ops ts.ban tags known).2, ∃ n,
        checkExtrinsic api (p.pruneBase ops ts.ban tags known).1.rotator atBlock n tx.data = .ok t := by
  rcases Pool.pruneTags_cases p ts atBlock tags known with h | ⟨q, rs, hs, h⟩
  · rw [h]; exact .refl _
  have hq : (p.pruneBase ops ts.ban tags known).1.Within api q fun t =>
      ∃ tx ∈ (p.pruneBase ops ts.ban tags known).2, ∃ n,
        checkExtrinsic api (p.pruneBase ops ts.ban tags known).1.rotator atBlock n tx.data = .ok t :=
    (Pool.submitAt_within laws hs).mono fun t ⟨xt, hxt, n, h⟩ => by
      obtain ⟨tx, htx, rfl⟩ := List.mem_map.mp hxt
      exact ⟨tx, htx, n, h⟩
  rcases h with h | h
  · rw [h]; exact hq
  · exact hq.trans ((Pool.clearStale_within h).mono fun _ h => h.elim)

end Steps

def Pool.Routed (api : FullChainApi Hash BlockId) (P : Transaction Hash → Prop) (p : Pool Hash) : Prop :=
  (∀ t ∈ p.pool.txs, P t ∧ api.isEven t.data ≠ some true) ∧
  (∀ t ∈ p.pool2.txs, P t ∧ api.isEven t.data = some true)

/-- Every stored transaction is stored under the hash `hash_and_length` gives its data,
in the base pool its data routes it to. -/
def Pool.Consistent (api : FullChainApi Hash BlockId) (p : Pool Hash) : Prop :=
  (∀ t ∈ p.pool.txs, t.hash = (api.hashAndLength t.data).1 ∧ api.isEven t.data ≠ some true) ∧
  (∀ t ∈ p.pool2.txs, t.hash = (api.hashAndLength t.data).1 ∧ api.isEven t.data = some true)

section Runs

variable [DecidableEq Hash] {api : FullChainApi Hash BlockId} {ops : BaseOps Hash} {opts : Options}
  {p q : Pool Hash} {new : Transaction Hash → Prop}

omit [DecidableEq Hash] in
theorem Pool.Routed.within {P : Transaction Hash → Prop} (hp : p.Routed api P) (h : p.Within api q new)
    (hn : ∀ t, new t → P t) : q.Routed api P :=
  ⟨fun t ht => (h.1 t ht).elim (hp.1 t) fun h => ⟨hn t h.1, h.2⟩,
    fun t ht => (h.2 t ht).elim (hp.2 t) fun h => ⟨hn t h.1, h.2⟩⟩

theorem hash_of_checked {r : Rotator Hash} {atBlock : BlockId} {n : Nat} {xt : Bytes} {t : Transaction Hash}
    (h : checkExtrinsic api r atBlock n xt = .ok t) : t.hash = (api.hashAndLength t.data).1 := by
  rw [(checkExtrinsic_eq_ok h).2.1, (checkExtrinsic_eq_ok h).1]

omit [DecidableEq Hash] in
theorem Pool.Consistent.hash_eq (hc : p.Consistent api) {t : Transaction Hash} (ht : t ∈ p.txs) :
    t.hash = (api.hashAndLength t.data).1 :=
  (List.mem_append.mp ht).elim (fun h => (hc.1 t h).1) fun h => (hc.2 t h).1

/-- The run lemma for a property that whatever a check builds has: in every reachable
state every stored transaction has it, in the base pool its data routes it to. -/
theorem Reachable.routed (laws : ops.Laws) {P : Transaction Hash → Prop}
    (hP : ∀ {r : Rotator Hash} {atBlock : BlockId} {n : Nat} {xt : Bytes} {t : Transaction Hash},
      checkExtrinsic api r atBlock n xt = .ok t → P t)
    (h : Reachable api ops opts p) : p.Routed api P := by
  induction h with
  | empty => exact ⟨fun _ h => by simp [BasePool.txs] at h, fun _ h => by simp [BasePool.txs] at h⟩
  | submitAt now now₂ atBlock xts _ hs ih =>
    exact ih.within (Pool.submitAt_within laws hs) fun _ ⟨_, _, _, h⟩ => hP h
  | pruneTags ts atBlock tags known _ ih =>
    exact (ih.within (Pool.pruneBase_within laws _ ts.ban tags known) fun _ h => h.elim).within
      (Pool.pruneTags_within laws _ ts atBlock tags known) fun _ ⟨_, _, _, h⟩ => hP h
  | clearStale now t₁ t₂ atBlock _ hc ih =>
    exact ih.within (Pool.clearStale_within hc) fun _ h => h.elim
  | removeInvalid now hashes _ ih =>
    exact ih.within (Pool.removeInvalid_within _ now hashes) fun _ h => h.elim

theorem Reachable.consistent (laws : ops.Laws) (h : Reachable api ops opts p) : p.Consistent api :=
  h.routed laws hash_of_checked

theorem Rotator.isBanned_ban_of_mem {r : Rotator Hash} {now : Nat} {hashes : List Hash} {h : Hash}
    (hh : h ∈ hashes) : (r.ban now hashes).IsBanned h :=
  List.mem_map_of_mem Prod.fst ((Rotator.mem_foldl_refresh now hashes r.banned).1 h hh)

theorem Pool.mem_txs_of_pruneBase (laws : ops.Laws) {now : Nat} {tags : List Tag} {known : List Hash}
    {t : Transaction Hash} (ht : t ∈ (p.pruneBase ops now tags known).1.txs) : t ∈ p.txs := by
  rcases List.mem_append.mp ht with h | h
  exacts [List.mem_append_left _ (laws.pruneTags_txs _ _ t h), List.mem_append_right _ (laws.pruneTags_txs _ _ t h)]

theorem Pool.mem_txs_of_pruned (laws : ops.Laws) {now : Nat} {tags : List Tag} {known : List Hash}
    {t : Transaction Hash} (ht : t ∈ (p.pruneBase ops now tags known).2) : t ∈ p.txs := by
  rcases List.mem_append.mp ht with h | h
  exacts [List.mem_append_left _ (laws.pruned_mem _ _ t h), List.mem_append_right _ (laws.pruned_mem _ _ t h)]

/-- On a consistent pool, a transaction the base pools pruned is in neither of them
afterwards: its own base pool dropped it, and its data routes it away from the other. -/
theorem Pool.pruneBase_pruned_not_mem (laws : ops.Laws) (hc : p.Consistent api) (now : Nat)
    (tags : List Tag) (known : List Hash) :
    ∀ tx ∈ (p.pruneBase ops now tags known).2, tx ∉ (p.pruneBase ops now tags known).1.txs := by
  intro tx htx hin
  rcases List.mem_append.mp htx with h | h <;> rcases List.mem_append.mp hin with h' | h'
  · exact laws.pruned_not_mem _ _ tx h h'
  · exact (hc.1 tx (laws.pruned_mem _ _ tx h)).2 (hc.2 tx (laws.pruneTags_txs _ _ tx h')).2
  · exact (hc.1 tx (laws.pruneTags_txs _ _ tx h')).2 (hc.2 tx (laws.pruned_mem _ _ tx h)).2
  · exact laws.pruned_not_mem _ _ tx h h'

/-- `prune_tags` in a sequential run: the hashes in the base pools afterwards are among
those before; no transaction with a known imported hash is added back, nor one built
from the data of a pruned transaction whose resubmission returned `InvalidTransaction`:
such a transaction is in the pool afterwards only if the base pruning kept it, and the
pruned transactions themselves are not among those it kept. -/
theorem pruneTags_never_resurrects (laws : ops.Laws) (hr : Reachable api ops opts p) (ts : PruneInstants)
    (atBlock : BlockId) (tags : List Tag) (known : List Hash) :
    (∀ t ∈ (p.pruneTags api ops opts ts atBlock tags known).1.txs, t.hash ∈ p.txs.map (·.hash)) ∧
    (∀ t ∈ (p.pruneTags api ops opts ts atBlock tags known).1.txs, t.hash ∈ known →
      t ∈ (p.pruneBase ops ts.ban tags known).1.txs) ∧
    (∀ q results, (p.pruneBase ops ts.ban tags known).1.submitAt api ops opts ts.limits ts.limits2 atBlock
        ((p.pruneBase ops ts.ban tags known).2.map (·.data)) = .ok (q, results) →
      ∀ tx c, (tx, .error (.invalidTransaction c)) ∈ (p.pruneBase ops ts.ban tags known).2.zip results →
        ∀ t ∈ (p.pruneTags api ops opts ts atBlock tags known).1.txs, t.data = tx.data →
          t ∈ (p.pruneBase ops ts.ban tags known).1.txs) ∧
    ∀ tx ∈ (p.pruneBase ops ts.ban tags known).2, tx ∉ (p.pruneBase ops ts.ban tags known).1.txs := by
  have hc := hr.consistent laws
  have hw : (p.pruneBase ops ts.ban tags known).1.Within api
      (p.pruneTags api ops opts ts atBlock tags known).1 _ := Pool.pruneTags_within laws p ts atBlock tags known
  refine ⟨fun t ht => ?_, fun t ht hk => ?_, fun q results hs tx c hm t ht hd => ?_,
    Pool.pruneBase_pruned_not_mem laws hc ts.ban tags known⟩
  · rcases hw.mem_txs ht with hb | ⟨tx, htx, n, hchk⟩
    · exact List.mem_map_of_mem _ (Pool.mem_txs_of_pruneBase laws hb)
    · have htx' := Pool.mem_txs_of_pruned laws htx
      rw [(checkExtrinsic_eq_ok hchk).2.1, ← hc.hash_eq htx']
      exact List.mem_map_of_mem _ htx'
  · refine (hw.mem_txs ht).resolve_right fun ⟨_, _, n, hchk⟩ => ?_
    exact (checkExtrinsic_eq_ok hchk).2.2 (Rotator.isBanned_ban_of_mem hk)
  · refine (hw.mem_txs ht).resolve_right fun ⟨_, _, n', hchk⟩ => ?_
    have hm' : (tx.data, Except.error (PoolError.invalidTransaction c)) ∈
        ((p.pruneBase ops ts.ban tags known).2.map (·.data)).zip results := by
      rw [List.zip_map_left]
      exact List.mem_map_of_mem _ hm
    obtain ⟨n, hn⟩ := Pool.submitAt_invalid laws hs hm'
    rw [← hd, (checkExtrinsic_eq_ok hchk).1] at hn
    cases hchk.symm.trans (checkExtrinsic_eq_error_iff.mp hn)

end Runs

def validatedProvides (api : FullChainApi Hash BlockId) (parent : BlockId) (xt : Bytes) : List Tag :=
  match api.validateTransaction parent xt with
  | .ok (.valid v) => v.provides
  | _ => []

theorem zip_map_append {α β : Type} (f : α → β) (rest : List β) :
    ∀ l : List α, l.zip (l.map f ++ rest) = l.map fun x => (x, f x)
  | [] => rfl
  | x :: l => congrArg ((x, f x) :: ·) (zip_map_append f rest l)

theorem foldl_eq_append_flatten {α β : Type} (g : α → List β) {step : List β → α → List β}
    (hstep : ∀ acc a, step acc a = acc ++ g a) :
    ∀ (l : List α) (init : List β), l.foldl step init = init ++ (l.map g).flatten
  | [], init => (List.append_nil init).symm
  | a :: l, init => by
    rw [List.foldl_cons, foldl_eq_append_flatten g hstep l, hstep, List.map_cons, List.flatten_cons,
      List.append_assoc]

/-- The tags `prune` passes to `prune_tags`: for each extrinsic, the `provides` of the
transaction of `pool` with its hash, else what validation at `parent` says it provides.
The lookups in `pool2` sit past the end of the zip, so they are never read. -/
theorem Pool.pruneArgs_tags [DecidableEq Hash] (api : FullChainApi Hash BlockId) (p : Pool Hash)
    (parent : BlockId) (extrinsics : List Bytes) :
    (p.pruneArgs api parent extrinsics).1 = (extrinsics.map fun xt =>
      match p.pool.txs.find? (·.hash = (api.hashAndLength xt).1) with
      | some tx => tx.provides
      | none => validatedProvides api parent xt).flatten := by
  unfold Pool.pruneArgs BasePool.byHash
  dsimp only
  rw [List.map_map, zip_map_append, foldl_eq_append_flatten (fun e => match e.2 with
    | some tx => tx.provides
    | none => validatedProvides api parent e.1) (fun acc e => ?_), List.nil_append, List.map_map]
  · rfl
  · rcases e with ⟨xt, _ | tx⟩
    · dsimp only [validatedProvides]
      rcases api.validateTransaction parent xt with _ | (_ | _ | _) <;> simp
    · rfl

theorem Pool.pruneArgs_known [DecidableEq Hash] (api : FullChainApi Hash BlockId) (p : Pool Hash)
    (parent : BlockId) (extrinsics : List Bytes) :
    (p.pruneArgs api parent extrinsics).2 =
      (p.pool.byHash (extrinsics.map fun xt => (api.hashAndLength xt).1)).filterMap (·.map (·.hash)) ++
        (p.pool2.byHash (extrinsics.map fun xt => (api.hashAndLength xt).1)).filterMap (·.map (·.hash)) :=
  List.filterMap_append _ _ _

/-- A chain on which block `b` has number `b`. Validation accepts every extrinsic as
providing tag `[1]` for 64 blocks, except at block 1, where it answers `Invalid`. An
extrinsic's hash and length are its length, and it `is_even` when its first byte is. -/
def parityApi : FullChainApi Nat Nat where
  blockIdToNumber b := .ok (some b)
  validateTransaction b _ := .ok (if b = 1 then .invalid 0 else .valid ⟨0, [], [[1]], 64, true⟩)
  blockIdToHash _ := .ok (some [])
  hashAndLength xt := (xt.length, xt.length)
  isEven xt := xt.head?.map fun x => x.val % 2 == 0

/-- Modelled from the spec: a base pool that imports every transaction as ready and
refuses a hash it holds, prunes exactly the transactions that provide one of the tags,
and holds no limits. -/
def readyBase : BaseOps Nat where
  importTx b tx := if tx.hash ∈ b.txs.map (·.hash) then .error "AlreadyImported"
    else .ok { b with ready := b.ready ++ [tx] }
  pruneTags b tags := (⟨b.ready.filter fun t => !t.provides.any (· ∈ tags),
      b.future.filter fun t => !t.provides.any (· ∈ tags)⟩,
    b.txs.filter fun t => t.provides.any (· ∈ tags))
  enforceLimits b _ _ := (b, [])

theorem readyBase_laws : readyBase.Laws where
  importTx_txs b tx b' h t ht := by
    simp only [readyBase] at h
    split_ifs at h
    cases h
    simpa [BasePool.txs, or_assoc, or_comm, or_left_comm] using ht
  pruneTags_txs b tags t ht := by
    simp only [readyBase, BasePool.txs, List.mem_append, List.mem_filter] at ht ⊢
    exact ht.imp And.left And.left
  pruned_mem b tags t ht := (List.mem_filter.mp ht).1
  pruned_not_mem b tags t ht hin := by
    simp only [readyBase, BasePool.txs, List.mem_append, List.mem_filter, List.any_eq_true,
      decide_eq_true_eq, Bool.not_eq_true', List.any_eq_false] at ht hin
    obtain ⟨x, hx, hxt⟩ := ht.2
    rcases hin with ⟨-, h⟩ | ⟨-, h⟩ <;> exact h x hx hxt
  enforceLimits_txs _ _ _ _ h := h

theorem readyBase_prunes_providers (b : BasePool Nat) (tags : List Tag) {t : Transaction Nat}
    (ht : ∃ tag ∈ t.provides, tag ∈ tags) : t ∉ (readyBase.pruneTags b tags).1.txs := by
  obtain ⟨tag, htag, hin⟩ := ht
  simp only [readyBase, BasePool.txs, List.mem_append, List.mem_filter, Bool.not_eq_true', List.any_eq_false,
    decide_eq_true_eq, not_or, not_and]
  exact ⟨fun _ h => h tag htag hin, fun _ h => h tag htag hin⟩

def defaultOptions : Options := ⟨⟨512, 10 * 1024 * 1024⟩, ⟨128, 1024 * 1024⟩⟩

def evenTransaction : Transaction Nat :=
  { data := [2], bytes := 1, hash := 1, priority := 0, requires := [], provides := [[1]], propagate := true,
    validTill := 64 }

def submittedToPool2 : Pool Nat := ⟨⟨[], []⟩, ⟨[evenTransaction], []⟩, ⟨30, []⟩⟩

theorem reachable_submittedToPool2 : Reachable parityApi readyBase defaultOptions submittedToPool2 :=
  have h : (⟨⟨[], []⟩, ⟨[], []⟩, ⟨30, []⟩⟩ : Pool Nat).submitAt parityApi readyBase defaultOptions 0 0 0
      [[2]] = .ok (submittedToPool2, [.ok 1]) := by rfl
  .submitAt 0 0 0 [[2]] (.empty 30) h

def tickingClock : PruneInstants := ⟨0, 1, 2, 3, 4, 5⟩

/-- `prune` of the extrinsic of a transaction that `pool2` holds, when validation at
`parent` answers `Invalid`: the tags it passes are empty, although the hash is passed
as known, and the transaction stays in `pool2`, under a base pool that prunes every
transaction providing a tag. -/
theorem prune_keeps_pool2_transaction :
    Reachable parityApi readyBase defaultOptions submittedToPool2 ∧
    evenTransaction ∈ submittedToPool2.pool2.txs ∧
    submittedToPool2.pruneArgs parityApi 1 [[2]] = ([], [1]) ∧
    submittedToPool2.prune parityApi readyBase defaultOptions tickingClock 2 1 [[2]] =
      (⟨⟨[], []⟩, ⟨[evenTransaction], []⟩, ⟨30, [(1, 0)]⟩⟩, .ok ()) :=
  ⟨reachable_submittedToPool2, by decide, by decide, by rfl⟩

theorem pruneTags_never_resurrects_pool2 :
    readyBase.Laws ∧ Reachable parityApi readyBase defaultOptions submittedToPool2 ∧
    (∀ t ∈ (submittedToPool2.pruneTags parityApi readyBase defaultOptions tickingClock 2 [[1]] [1]).1.txs,
      t.hash ∈ submittedToPool2.txs.map (·.hash)) ∧
    (∀ t ∈ (submittedToPool2.pruneTags parityApi readyBase defaultOptions tickingClock 2 [[1]] [1]).1.txs,
      t.hash ∈ [1] → t ∈ (submittedToPool2.pruneBase readyBase tickingClock.ban [[1]] [1]).1.txs) ∧
    (∀ q results, (submittedToPool2.pruneBase readyBase tickingClock.ban [[1]] [1]).1.submitAt parityApi
        readyBase defaultOptions tickingClock.limits tickingClock.limits2 2
        ((submittedToPool2.pruneBase readyBase tickingClock.ban [[1]] [1]).2.map (·.data)) = .ok (q, results) →
      ∀ tx c, (tx, .error (.invalidTransaction c)) ∈
          (submittedToPool2.pruneBase readyBase tickingClock.ban [[1]] [1]).2.zip results →
        ∀ t ∈ (submittedToPool2.pruneTags parityApi readyBase defaultOptions tickingClock 2 [[1]] [1]).1.txs,
          t.data = tx.data → t ∈ (submittedToPool2.pruneBase readyBase tickingClock.ban [[1]] [1]).1.txs) ∧
    ∀ tx ∈ (submittedToPool2.pruneBase readyBase tickingClock.ban [[1]] [1]).2,
      tx ∉ (submittedToPool2.pruneBase readyBase tickingClock.ban [[1]] [1]).1.txs :=
  ⟨readyBase_laws, reachable_submittedToPool2,
    pruneTags_never_resurrects readyBase_laws reachable_submittedToPool2 tickingClock 2 [[1]] [1]⟩

end Substrate.TransactionPool
