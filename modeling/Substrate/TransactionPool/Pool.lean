import Substrate.Basic

/-! `transaction-pool/graph/src/pool.rs`: the pool over its two base pools and the
rotator, run by one caller at a time. `BasePool` and `PoolRotator` are not among the
files given; they are modelled from the spec, with the fields `clear_stale` and
`remove_invalid` read. Instants are natural numbers of a clock that does not run
backwards. -/
namespace Substrate.TransactionPool

variable {Hash BlockId : Type} [DecidableEq Hash]

abbrev Tag := Bytes

/-- `base::Transaction`; the extrinsic `data` is read as its encoding. -/
structure Transaction (Hash : Type) where
  data : Bytes
  bytes : Nat
  hash : Hash
  priority : Nat
  requires : List Tag
  provides : List Tag
  propagate : Bool
  validTill : Nat
  deriving DecidableEq, Repr

/-- Modelled from the spec: `BasePool`, its ready queue and its future queue. -/
structure BasePool (Hash : Type) where
  ready : List (Transaction Hash)
  future : List (Transaction Hash)

/-- Modelled from the spec: `BasePool::remove_invalid` removes the transactions with
the given hashes from both queues and returns them. -/
def BasePool.removeInvalid (p : BasePool Hash) (hashes : List Hash) :
    BasePool Hash × List (Transaction Hash) :=
  (⟨p.ready.filter (·.hash ∉ hashes), p.future.filter (·.hash ∉ hashes)⟩,
    (p.ready ++ p.future).filter (·.hash ∈ hashes))

/-- Modelled from the spec: `PoolRotator`, a map from a hash to the instant of its
ban, and the time a ban lasts. -/
structure Rotator (Hash : Type) where
  banTime : Nat
  banned : List (Hash × Nat)

namespace Rotator

/-- Modelled from the spec: `ban` inserts or refreshes the ban of each hash. -/
def ban (r : Rotator Hash) (now : Nat) (hashes : List Hash) : Rotator Hash :=
  { r with banned := hashes.foldl (fun b h => (h, now) :: b.filter (·.1 ≠ h)) r.banned }

/-- Modelled from the spec: `is_banned`, an entry for the hash exists. -/
def IsBanned (r : Rotator Hash) (h : Hash) : Prop := h ∈ r.banned.map Prod.fst

instance (r : Rotator Hash) (h : Hash) : Decidable (r.IsBanned h) :=
  inferInstanceAs (Decidable (h ∈ r.banned.map Prod.fst))

/-- Modelled from the spec: `ban_if_stale` bans a transaction that is stale at the
block, `valid_till < block_number`, and says whether it was. -/
def banIfStale (r : Rotator Hash) (now blockNumber : Nat) (tx : Transaction Hash) :
    Rotator Hash × Bool :=
  if tx.validTill < blockNumber then (r.ban now [tx.hash], true) else (r, false)

/-- Modelled from the spec: `clear_timeouts` drops the bans that ended before `now`. -/
def clearTimeouts (r : Rotator Hash) (now : Nat) : Rotator Hash :=
  { r with banned := r.banned.filter fun e => now ≤ e.2 + r.banTime }

end Rotator

/-- `Pool`, with the state `clear_stale` reads and writes: the base pool `pool`, the
second base pool `pool2`, and the rotator. -/
structure Pool (Hash : Type) where
  pool : BasePool Hash
  pool2 : BasePool Hash
  rotator : Rotator Hash

structure ChainApi (BlockId : Type) where
  blockIdToNumber : BlockId → Except String (Option Nat)

/-- The pool's errors: the chain's, those of `error::Error` the pool raises, and the
base pool's refusals of an import. -/
inductive PoolError (BlockId : Type) where
  | chain (e : String)
  | invalidBlockId (blockId : BlockId)
  | temporarilyBanned
  | invalidTransaction (code : Int)
  | unknownTransactionValidity (code : Int)
  | noTagsProvided
  | immediatelyDropped
  | base (e : String)

def saturatedU64 (n : Nat) : Nat := min n (2 ^ 64 - 1)

namespace Pool

def ready (p : Pool Hash) : List (Transaction Hash) := p.pool.ready

def removeInvalid (p : Pool Hash) (now : Nat) (hashes : List Hash) :
    Pool Hash × List (Transaction Hash) :=
  let invalid := p.pool.removeInvalid hashes
  let invalid2 := p.pool2.removeInvalid hashes
  (⟨invalid.1, invalid2.1, p.rotator.ban now hashes⟩, invalid.2 ++ invalid2.2)

end Pool

def banStale (now blockNumber : Nat) :
    Rotator Hash × List Hash → List (Transaction Hash) → Rotator Hash × List Hash
  | acc, [] => acc
  | (r, hashes), tx :: txs =>
    let (r', stale) := r.banIfStale now blockNumber tx
    banStale now blockNumber (r', if stale then hashes ++ [tx.hash] else hashes) txs

def staleHashes (blockNumber : Nat) (txs : List (Transaction Hash)) : List Hash :=
  (txs.filter fun tx => tx.validTill < blockNumber).map (·.hash)

/-- The body of `clear_stale` once the block number is known: the ready scan over
`ready()`, the future scans over both base pools, the two removals, and the end of
old bans. -/
def Pool.clearStaleAt (p : Pool Hash) (now removeNow futureRemoveNow blockNumber : Nat) :
    Pool Hash :=
  let toRemove := banStale now blockNumber (p.rotator, []) p.ready
  let futuresToRemove :=
    banStale now blockNumber (banStale now blockNumber (toRemove.1, []) p.pool.future) p.pool2.future
  let p := (({ p with rotator := futuresToRemove.1 } : Pool Hash).removeInvalid removeNow
    toRemove.2).1
  let p := (p.removeInvalid futureRemoveNow futuresToRemove.2).1
  { p with rotator := p.rotator.clearTimeouts now }

/-- `clear_stale`, at the instant `now`; `remove_invalid` reads the clock again, at
`removeNow` and then at `futureRemoveNow`. -/
def Pool.clearStale (api : ChainApi BlockId) (p : Pool Hash) (now removeNow futureRemoveNow : Nat)
    (blockId : BlockId) : Except (PoolError BlockId) (Pool Hash) := do
  let number ← (api.blockIdToNumber blockId).mapError PoolError.chain
  let some number := number | throw (PoolError.invalidBlockId blockId)
  pure (p.clearStaleAt now removeNow futureRemoveNow (saturatedU64 number))

namespace Rotator

/-- The hash has a ban from `now` on or later. -/
def BannedSince (r : Rotator Hash) (now : Nat) (h : Hash) : Prop := ∃ t, now ≤ t ∧ (h, t) ∈ r.banned

theorem mem_foldl_refresh (t : Nat) :
    ∀ (hashes : List Hash) (b : List (Hash × Nat)),
      (∀ h ∈ hashes, (h, t) ∈ hashes.foldl (fun b h => (h, t) :: b.filter (·.1 ≠ h)) b) ∧
      ∀ e ∈ b, e.1 ∉ hashes → e ∈ hashes.foldl (fun b h => (h, t) :: b.filter (·.1 ≠ h)) b
  | [], _ => ⟨fun _ h => absurd h (List.not_mem_nil _), fun _ he _ => he⟩
  | h₀ :: hs, b => by
    obtain ⟨ihnew, ihold⟩ := mem_foldl_refresh t hs ((h₀, t) :: b.filter (·.1 ≠ h₀))
    refine ⟨fun h hh => ?_, fun e he hne => ihold e ?_ fun hs' => hne (List.mem_cons_of_mem _ hs')⟩
    · by_cases hin : h ∈ hs
      · exact ihnew h hin
      · rcases List.mem_cons.mp hh with rfl | hh
        · exact ihold _ (List.mem_cons_self _ _) hin
        · exact absurd hh hin
    · exact List.mem_cons_of_mem _ (List.mem_filter.mpr ⟨he, by
        simpa using fun heq : e.1 = h₀ => hne (heq ▸ List.mem_cons_self _ _)⟩)

variable {r : Rotator Hash} {now t t₀ : Nat} {h : Hash}

@[simp] theorem ban_append (r : Rotator Hash) (t : Nat) (l₁ l₂ : List Hash) :
    (r.ban t l₁).ban t l₂ = r.ban t (l₁ ++ l₂) := by
  simp [ban, List.foldl_append]

theorem bannedSince_ban_of_mem {hashes : List Hash} (ht : now ≤ t) (hh : h ∈ hashes) :
    (r.ban t hashes).BannedSince now h :=
  ⟨t, ht, (mem_foldl_refresh t hashes r.banned).1 h hh⟩

theorem BannedSince.ban (hb : r.BannedSince now h) (ht : now ≤ t) (hashes : List Hash) :
    (r.ban t hashes).BannedSince now h := by
  by_cases hin : h ∈ hashes
  · exact bannedSince_ban_of_mem ht hin
  · obtain ⟨t', ht', he⟩ := hb
    exact ⟨t', ht', (mem_foldl_refresh t hashes r.banned).2 _ he hin⟩

omit [DecidableEq Hash] in
/-- A ban from `t₀` on outlasts `clear_timeouts` at any instant up to `t₀ + ban_time`. -/
theorem BannedSince.clearTimeouts (hb : r.BannedSince t₀ h) (hle : now ≤ t₀ + r.banTime) :
    (r.clearTimeouts now).BannedSince t₀ h := by
  obtain ⟨t, ht, he⟩ := hb
  exact ⟨t, ht, List.mem_filter.mpr ⟨he, by simp only [decide_eq_true_eq]; omega⟩⟩

omit [DecidableEq Hash] in
theorem BannedSince.isBanned (hb : r.BannedSince now h) : r.IsBanned h :=
  let ⟨_, _, he⟩ := hb
  List.mem_map_of_mem Prod.fst he

end Rotator

omit [DecidableEq Hash] in
theorem staleHashes_cons (n : Nat) (tx : Transaction Hash) (txs : List (Transaction Hash)) :
    staleHashes n (tx :: txs) =
      if tx.validTill < n then tx.hash :: staleHashes n txs else staleHashes n txs := by
  by_cases h : tx.validTill < n <;> simp [staleHashes, List.filter_cons, h]

omit [DecidableEq Hash] in
theorem staleHashes_append (n : Nat) (l₁ l₂ : List (Transaction Hash)) :
    staleHashes n (l₁ ++ l₂) = staleHashes n l₁ ++ staleHashes n l₂ := by
  simp [staleHashes]

theorem banStale_spec (now n : Nat) :
    ∀ (txs : List (Transaction Hash)) (acc : Rotator Hash × List Hash),
      (banStale now n acc txs).2 = acc.2 ++ staleHashes n txs ∧
        (banStale now n acc txs).1 = acc.1.ban now (staleHashes n txs)
  | [], _ => ⟨by simp [banStale, staleHashes], rfl⟩
  | tx :: txs, (r, hs) => by
    have ih := banStale_spec now n txs
    by_cases hst : tx.validTill < n <;>
      simp [banStale, Rotator.banIfStale, hst, staleHashes_cons, ih]

namespace Pool

variable {p : Pool Hash} {now t₁ t₂ n : Nat}

def clearedHashes (p : Pool Hash) (n : Nat) : List Hash :=
  staleHashes n (p.ready ++ p.pool.future ++ p.pool2.future)

theorem filter_not_mem_append (l : List (Transaction Hash)) (s₁ s₂ : List Hash) :
    (l.filter (·.hash ∉ s₁)).filter (·.hash ∉ s₂) = l.filter (·.hash ∉ s₁ ++ s₂) := by
  rw [List.filter_filter]
  exact List.filter_congr fun tx _ => by simp [Bool.and_comm]

theorem clearStaleAt_queues :
    (p.clearStaleAt now t₁ t₂ n).pool =
        ⟨p.pool.ready.filter (·.hash ∉ p.clearedHashes n),
          p.pool.future.filter (·.hash ∉ p.clearedHashes n)⟩ ∧
      (p.clearStaleAt now t₁ t₂ n).pool2 =
        ⟨p.pool2.ready.filter (·.hash ∉ p.clearedHashes n),
          p.pool2.future.filter (·.hash ∉ p.clearedHashes n)⟩ := by
  simp only [clearStaleAt, removeInvalid, BasePool.removeInvalid, banStale_spec, List.nil_append,
    filter_not_mem_append, clearedHashes, staleHashes_append, List.append_assoc, and_self]

/-- The rotator after the body of `clear_stale`: the cleared hashes banned at `now`,
banned again by the two removals at their own instants, and the bans that ended before
`now` dropped. -/
theorem clearStaleAt_rotator :
    (p.clearStaleAt now t₁ t₂ n).rotator =
      (((p.rotator.ban now (p.clearedHashes n)).ban t₁ (staleHashes n p.ready)).ban t₂
        (staleHashes n (p.pool.future ++ p.pool2.future))).clearTimeouts now := by
  simp only [clearStaleAt, removeInvalid, banStale_spec, List.nil_append, Rotator.ban_append,
    clearedHashes, staleHashes_append, List.append_assoc]

/-- The body of `clear_stale` keeps every ban from an instant `t₀` on, when each of its
clock reads comes no earlier than `t₀` and the ban has not yet run out at `now`. -/
theorem clearStaleAt_bannedSince {t₀ : Nat} (h₀ : t₀ ≤ now) (h₁ : t₀ ≤ t₁) (h₂ : t₀ ≤ t₂)
    (hle : now ≤ t₀ + p.rotator.banTime) {h : Hash} (hb : p.rotator.BannedSince t₀ h) :
    (p.clearStaleAt now t₁ t₂ n).rotator.BannedSince t₀ h := by
  rw [clearStaleAt_rotator]
  exact (((hb.ban h₀ _).ban h₁ _).ban h₂ _).clearTimeouts hle

theorem clearStaleAt_isBanned (h₁ : now ≤ t₁) (h₂ : now ≤ t₂) {h : Hash}
    (hh : p.rotator.BannedSince now h ∨ h ∈ p.clearedHashes n) :
    (p.clearStaleAt now t₁ t₂ n).rotator.IsBanned h := by
  have hb : (p.rotator.ban now (p.clearedHashes n)).BannedSince now h :=
    hh.elim (fun hb => hb.ban le_rfl _) (Rotator.bannedSince_ban_of_mem le_rfl)
  rw [clearStaleAt_rotator]
  exact (((hb.ban h₁ _).ban h₂ _).clearTimeouts (Nat.le_add_right _ _)).isBanned

end Pool

theorem Pool.clearStale_eq_ok {api : ChainApi BlockId} {p p' : Pool Hash} {now t₁ t₂ : Nat}
    {blockId : BlockId} :
    p.clearStale api now t₁ t₂ blockId = .ok p' ↔
      ∃ number, api.blockIdToNumber blockId = .ok (some number) ∧
        p.clearStaleAt now t₁ t₂ (saturatedU64 number) = p' := by
  unfold Pool.clearStale
  cases api.blockIdToNumber blockId with
  | error e => simp [Except.mapError, bind, Except.bind]
  | ok number =>
    cases number with
    | none => simp [Except.mapError, bind, Except.bind, throw, throwThe, MonadExceptOf.throw]
    | some number => simp [Except.mapError, bind, Except.bind, pure, Except.pure]

def validTillZero : Transaction Nat :=
  { data := [], bytes := 0, hash := 7, priority := 0, requires := [], provides := [], propagate := true,
    validTill := 0 }

def staleReadyInPool2 : Pool Nat := ⟨⟨[], []⟩, ⟨[validTillZero], []⟩, ⟨30, []⟩⟩

def everyBlockOne : ChainApi Nat := ⟨fun _ => .ok (some 1)⟩

/-- `clear_stale` scans the ready queue of `pool` only: at block 1 a transaction valid
till block 0 stays in the ready queue of `pool2`. -/
theorem clearStale_keeps_stale_ready_of_pool2 :
    ∃ p', staleReadyInPool2.clearStale everyBlockOne 0 0 0 0 = .ok p' ∧
      ∃ tx ∈ p'.pool2.ready, tx.validTill < 1 :=
  ⟨_, rfl, validTillZero, by decide, by decide⟩

end Substrate.TransactionPool
