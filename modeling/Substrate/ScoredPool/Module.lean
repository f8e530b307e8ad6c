import Mathlib.Logic.Function.Basic
import Substrate.Codec
import Substrate.Slice

/-! `srml/scored-pool/src/lib.rs`: the storage of the scored pool, its genesis build,
its five dispatchables and `on_initialize`. Storage is not transactional: a call that
returns `Err` keeps what it wrote before, so a call returns the storage after it
together with its result, and `none` when it panics. The balances `Currency` is not
among the files given; its reserve and unreserve are modelled as the spec describes
them. `MembershipInitialized` and `MembershipChanged` are told of new members outside
the module and are left out. -/
namespace Substrate.ScoredPool

variable {Account : Type}

/-- `T::Score`. Scores are unsigned, so the default score is `0`, the least. -/
abbrev Score := Nat

abbrev PoolEntry (Account : Type) := Account × Option Score

def entryScore (e : PoolEntry Account) : Score := e.2.getD 0

/-- `system::RawOrigin`, and an origin of another module (a collective, say) that
`ScoreOrigin` or `KickOrigin` may accept. -/
inductive Origin (Account : Type) where
  | root
  | signed (who : Account)
  | none
  | other (id : Nat)
  deriving DecidableEq, Repr

/-- The `&'static str` of an `Err`. `system::ensure_signed` and `ensure_root` fail with
`badOrigin`; every other text is the module's own or one it passes on. -/
inductive DispatchError where
  | badOrigin
  | msg (text : String)
  deriving DecidableEq, Repr

structure Config (Account : Type) where
  candidateDeposit : Nat
  period : Nat
  scoreOrigin : Origin Account → Bool
  kickOrigin : Origin Account → Bool
  lookup : Account → Except String Account

/-- The genesis configuration the build reads: `pool` and `member_count`, and the
balances the accounts start with, none of them reserved. `members` is configured too,
but the build never reads it. -/
structure GenesisConfig (Account : Type) where
  pool : List (PoolEntry Account)
  memberCount : Codec.U32
  balances : Account → Nat

/-- The storage of the module, with the free and reserved balances of `Currency`.
`CandidateExists` only ever holds `true`, so a key is present when it maps to `true`. -/
structure State (Account : Type) where
  pool : List (PoolEntry Account)
  candidateExists : Account → Bool
  members : List Account
  memberCount : Codec.U32
  free : Account → Nat
  reserved : Account → Nat

abbrev Dispatched (Account : Type) := State Account × Except DispatchError Unit

variable [LinearOrder Account]

namespace State

/-- Modelled from the spec: `Currency::reserve` moves `value` from the free balance to
the reserved one, and fails, changing nothing, when the free balance is lower. -/
def reserve (s : State Account) (who : Account) (value : Nat) : Option (State Account) :=
  if s.free who < value then none
  else some { s with free := Function.update s.free who (s.free who - value),
                     reserved := Function.update s.reserved who (s.reserved who + value) }

/-- Modelled from the spec: `Currency::unreserve` moves back to the free balance as
much of `value` as is reserved. -/
def unreserve (s : State Account) (who : Account) (value : Nat) : State Account :=
  let amount := min value (s.reserved who)
  { s with free := Function.update s.free who (s.free who + amount),
           reserved := Function.update s.reserved who (s.reserved who - amount) }

def refreshMembers (s : State Account) (pool : List (PoolEntry Account)) : State Account :=
  let newMembers := ((pool.filter (·.2.isSome)).take s.memberCount.val).map Prod.fst
  { s with members := newMembers.mergeSort fun a b => decide (a ≤ b) }

/-- A call whose checks all come before its first write: an `Err` of the checks
returns with the storage as it was. -/
def checked {β : Type} (s : State Account) (checks : Except DispatchError β)
    (write : β → Option (Dispatched Account)) : Option (Dispatched Account) :=
  match checks with
  | .error e => some (s, .error e)
  | .ok b => write b

end State

def ensureSigned : Origin Account → Except DispatchError Account
  | .signed who => .ok who
  | _ => .error .badOrigin

def ensureRoot : Origin Account → Except DispatchError Unit
  | .root => .ok ()
  | _ => .error .badOrigin

/-- The origin check of `kick` and `score`: `try_origin` of the configured origin,
`or_else(ensure_root)`, with the error mapped to `"bad origin"`. -/
def ensureOriginOrRoot (accepts : Origin Account → Bool) (origin : Origin Account) :
    Except DispatchError Unit :=
  if accepts origin || origin == .root then .ok () else .error (.msg "bad origin")

/-- `ensure_index`: `index` is below `pool.len() as u32`, the length cut to 32 bits, and
the entry there is `who`'s. -/
def ensureIndex (pool : List (PoolEntry Account)) (who : Account) (index : Codec.U32) :
    Except DispatchError Unit :=
  if h : index.val < pool.length % 2 ^ 32 then
    if (pool.get ⟨index.val, lt_of_lt_of_le h (Nat.mod_le _ _)⟩).1 = who then .ok ()
    else .error (.msg "index does not match requested account")
  else .error (.msg "index out of bounds")

def removeMember (c : Config Account) (s : State Account) (pool : List (PoolEntry Account))
    (remove : Account) (index : Codec.U32) : Option (Dispatched Account) :=
  s.checked (ensureIndex pool remove index) fun () => do
    let pool ← vecRemove pool index.val
    let s := { s with pool }
    let s := if (binarySearch s.members remove).isOk then s.refreshMembers pool else s
    let s := { s with candidateExists := Function.update s.candidateExists remove false }
    pure (s.unreserve remove c.candidateDeposit, .ok ())

/-- `submit_candidacy`. Whether `Pool::append` succeeds depends on the stored encoding,
which the model does not keep; the call is given its result, and a failed append
writes nothing. -/
def submitCandidacy (c : Config Account) (s : State Account) (origin : Origin Account)
    (append : Except String Unit) : Option (Dispatched Account) :=
  s.checked (do
      let who ← ensureSigned origin
      if s.candidateExists who then throw (.msg "already a member")
      pure who)
    fun who =>
      match s.reserve who c.candidateDeposit with
      | none => some (s, .error (.msg "balance too low to submit candidacy"))
      | some s =>
        match append with
        | .error e => some (s.unreserve who c.candidateDeposit, .error (.msg e))
        | .ok () =>
          some ({ s with pool := s.pool ++ [(who, none)],
                         candidateExists := Function.update s.candidateExists who true }, .ok ())

def withdrawCandidacy (c : Config Account) (s : State Account) (origin : Origin Account)
    (index : Codec.U32) : Option (Dispatched Account) :=
  s.checked (do
      let who ← ensureSigned origin
      ensureIndex s.pool who index
      pure who)
    fun who => removeMember c s s.pool who index

def kick (c : Config Account) (s : State Account) (origin : Origin Account) (dest : Account)
    (index : Codec.U32) : Option (Dispatched Account) :=
  s.checked (do
      ensureOriginOrRoot c.kickOrigin origin
      let who ← (c.lookup dest).mapError .msg
      ensureIndex s.pool who index
      pure who)
    fun who => removeMember c s s.pool who index

/-- Where `score` puts a new score: the index `binary_search_by_key` returns, found or
not, for the key `Reverse(score)` among the keys `Reverse(unwrap_or_default)`, that is,
comparing `score` with each entry's score. -/
def scoreLocation (pool : List (PoolEntry Account)) (score : Score) : Nat :=
  searchIndex (binarySearchBy pool fun e => compare score (entryScore e))

def score (c : Config Account) (s : State Account) (origin : Origin Account) (dest : Account)
    (index : Codec.U32) (score : Score) : Option (Dispatched Account) :=
  s.checked (do
      ensureOriginOrRoot c.scoreOrigin origin
      let who ← (c.lookup dest).mapError .msg
      ensureIndex s.pool who index
      pure who)
    fun who => do
      let pool ← vecRemove s.pool index.val
      let pool ← vecInsert pool (scoreLocation pool score) (who, some score)
      pure ({ s with pool }, .ok ())

def changeMemberCount (s : State Account) (origin : Origin Account) (count : Codec.U32) :
    Option (Dispatched Account) :=
  s.checked (ensureRoot origin) fun () => some ({ s with memberCount := count }, .ok ())

inductive Call (Account : Type) where
  | submitCandidacy (append : Except String Unit)
  | withdrawCandidacy (index : Codec.U32)
  | kick (dest : Account) (index : Codec.U32)
  | score (dest : Account) (index : Codec.U32) (score : Score)
  | changeMemberCount (count : Codec.U32)

def dispatch (c : Config Account) (s : State Account) (origin : Origin Account) :
    Call Account → Option (Dispatched Account)
  | .submitCandidacy append => submitCandidacy c s origin append
  | .withdrawCandidacy index => withdrawCandidacy c s origin index
  | .kick dest index => kick c s origin dest index
  | .score dest index sc => score c s origin dest index sc
  | .changeMemberCount count => changeMemberCount s origin count

/-- `on_initialize` of block `n`: every `Period` blocks, refresh `Members` from `Pool`.
`n % Period` panics when `Period` is zero. -/
def onInitialize (c : Config Account) (s : State Account) (n : Nat) : Option (State Account) :=
  if c.period = 0 then none
  else if n % c.period = 0 then some (s.refreshMembers s.pool) else some s

/-- `pool.sort_by_key(|(_, s)| Reverse(s.unwrap_or_default()))`: a stable sort, highest
score first. -/
def sortPool (pool : List (PoolEntry Account)) : List (PoolEntry Account) :=
  pool.mergeSort fun a b => decide (entryScore b ≤ entryScore a)

/-- The genesis build: `Pool` and `MemberCount` as configured, then for each entry a
reserve (its `expect` panics when the reserve fails) and `CandidateExists`, then `Pool`
sorted and `Members` refreshed from it. -/
def genesisBuild (c : Config Account) (g : GenesisConfig Account) : Option (State Account) := do
  let s : State Account := ⟨g.pool, fun _ => false, [], g.memberCount, g.balances, fun _ => 0⟩
  let s ← g.pool.foldlM (fun s e => do
      let s ← s.reserve e.1 c.candidateDeposit
      pure { s with candidateExists := Function.update s.candidateExists e.1 true }) s
  let pool := sortPool g.pool
  pure ({ s with pool }.refreshMembers pool)

/-- The states of the module: a genesis build over a configured pool of distinct
accounts, then any calls from any origins, each returning `Ok` or `Err`, and any
`on_initialize`. A panic leaves no state. -/
inductive Reachable (c : Config Account) (g : GenesisConfig Account) : State Account → Prop where
  | genesis {s : State Account} : (g.pool.map Prod.fst).Nodup → genesisBuild c g = some s →
      Reachable c g s
  | dispatch {s s' : State Account} {origin : Origin Account} {call : Call Account}
      {r : Except DispatchError Unit} :
      Reachable c g s → dispatch c s origin call = some (s', r) → Reachable c g s'
  | onInitialize {s s' : State Account} {n : Nat} :
      Reachable c g s → onInitialize c s n = some s' → Reachable c g s'

end Substrate.ScoredPool
