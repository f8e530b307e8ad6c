import Substrate.ScoredPool.Module

/-! What each call of the scored pool can do. Every call either leaves the storage as
it was or returns `Ok` after the writes its inversion lemma lists; the checks come
before the first write, and the one write undone on an error path, the reserve of
`submit_candidacy` before a failed append, is undone exactly. -/
namespace Substrate.ScoredPool

variable {Account : Type} [LinearOrder Account]

namespace State

variable (s : State Account) (who : Account) (value : Nat) (pool : List (PoolEntry Account))

@[simp] theorem unreserve_pool : (s.unreserve who value).pool = s.pool := rfl
@[simp] theorem unreserve_candidateExists :
    (s.unreserve who value).candidateExists = s.candidateExists := rfl
@[simp] theorem unreserve_members : (s.unreserve who value).members = s.members := rfl
@[simp] theorem unreserve_memberCount : (s.unreserve who value).memberCount = s.memberCount := rfl
@[simp] theorem refreshMembers_pool : (s.refreshMembers pool).pool = s.pool := rfl
@[simp] theorem refreshMembers_candidateExists :
    (s.refreshMembers pool).candidateExists = s.candidateExists := rfl
@[simp] theorem refreshMembers_memberCount :
    (s.refreshMembers pool).memberCount = s.memberCount := rfl
@[simp] theorem refreshMembers_free : (s.refreshMembers pool).free = s.free := rfl
@[simp] theorem refreshMembers_reserved : (s.refreshMembers pool).reserved = s.reserved := rfl

variable {s who value}

theorem reserve_eq_some {s' : State Account} :
    s.reserve who value = some s' ↔ value ≤ s.free who ∧
      s' = { s with free := Function.update s.free who (s.free who - value),
                    reserved := Function.update s.reserved who (s.reserved who + value) } := by
  unfold reserve
  split
  case isTrue h => simp [Nat.not_le.mpr h]
  case isFalse h => simp [Nat.le_of_not_lt h, eq_comm]

/-- An unreserve of what was just reserved gives back the storage before the reserve. -/
theorem unreserve_reserve {s' : State Account} (h : s.reserve who value = some s') :
    s'.unreserve who value = s := by
  obtain ⟨hv, rfl⟩ := reserve_eq_some.mp h
  have hmin : min value (s.reserved who + value) = value := by omega
  simp only [unreserve, Function.update_same, hmin, Function.update_idem, Nat.sub_add_cancel hv,
    Nat.add_sub_cancel, Function.update_eq_self]

theorem reserve_total {s' : State Account} (h : s.reserve who value = some s') (a : Account) :
    s'.free a + s'.reserved a = s.free a + s.reserved a := by
  obtain ⟨hv, rfl⟩ := reserve_eq_some.mp h
  by_cases ha : a = who
  · subst ha; simp only [Function.update_same]; omega
  · simp [Function.update_noteq ha]

theorem unreserve_total (a : Account) :
    (s.unreserve who value).free a + (s.unreserve who value).reserved a =
      s.free a + s.reserved a := by
  by_cases ha : a = who
  · subst ha; simp only [unreserve, Function.update_same]; omega
  · simp [unreserve, Function.update_noteq ha]

omit [LinearOrder Account] in
theorem checked_eq_some {β : Type} {checks : Except DispatchError β}
    {write : β → Option (Dispatched Account)} {d : Dispatched Account}
    (h : s.checked checks write = some d) :
    (∃ e, checks = .error e ∧ d = (s, .error e)) ∨ ∃ b, checks = .ok b ∧ write b = some d := by
  cases checks with
  | error e => exact .inl ⟨e, rfl, (Option.some_inj.mp h).symm⟩
  | ok b => exact .inr ⟨b, rfl, h⟩

end State

/-- An `Ok` of `ensure_index` splits the pool around `who`'s entry at `index`. -/
theorem ensureIndex_eq_ok {pool : List (PoolEntry Account)} {who : Account} {index : Codec.U32}
    (h : ensureIndex pool who index = .ok ()) :
    ∃ pre sc post, pool = pre ++ (who, sc) :: post ∧ pre.length = index.val := by
  unfold ensureIndex at h
  split at h
  case isTrue hlt =>
    have hi : index.val < pool.length := lt_of_lt_of_le hlt (Nat.mod_le _ _)
    split at h
    case isTrue hwho =>
      refine ⟨pool.take index.val, pool[index.val].2, pool.drop (index.val + 1), ?_, by simp [hi.le]⟩
      rw [← hwho, List.get_eq_getElem, List.getElem_cons_drop, List.take_append_drop]
    all_goals cases h
  all_goals cases h

theorem vecRemove_middle (pre post : List α) (x : α) :
    vecRemove (pre ++ x :: post) pre.length = some (pre ++ post) := by
  simp [vecRemove, List.eraseIdx_append_of_length_le]

/-- The storage after `remove_member` has removed `who`'s entry, leaving `pool`. -/
def removedState (c : Config Account) (s : State Account) (pool : List (PoolEntry Account))
    (who : Account) : State Account :=
  let s' := { s with pool }
  let s' := if (binarySearch s.members who).isOk then s'.refreshMembers pool else s'
  ({ s' with candidateExists := Function.update s.candidateExists who false }).unreserve who
    c.candidateDeposit

theorem removeMember_cases {c : Config Account} {s s' : State Account}
    {pool : List (PoolEntry Account)} {who : Account} {index : Codec.U32}
    {r : Except DispatchError Unit} (h : removeMember c s pool who index = some (s', r)) :
    (s' = s ∧ ∃ e, r = .error e) ∨ r = .ok () ∧ ∃ pre sc post, pool = pre ++ (who, sc) :: post ∧
      s' = removedState c s (pre ++ post) who := by
  rcases State.checked_eq_some h with ⟨e, -, he⟩ | ⟨⟨⟩, hi, hw⟩
  · exact .inl ⟨(Prod.mk.inj he).1, e, (Prod.mk.inj he).2⟩
  · obtain ⟨pre, sc, post, rfl, hlen⟩ := ensureIndex_eq_ok hi
    rw [← hlen, vecRemove_middle] at hw
    simp only [Option.bind_eq_bind, Option.some_bind, Option.pure_def, Option.some_inj] at hw
    refine .inr ⟨(Prod.mk.inj hw).2.symm, pre, sc, post, rfl, ?_⟩
    rw [← (Prod.mk.inj hw).1, removedState]
    split <;> rfl

/-- `withdraw_candidacy` and `kick` differ only in the checks that find `who`. -/
theorem checked_removeMember_cases {c : Config Account} {s s' : State Account}
    {checks : Except DispatchError Account} {index : Codec.U32} {r : Except DispatchError Unit}
    (h : s.checked checks (fun who => removeMember c s s.pool who index) = some (s', r)) :
    (s' = s ∧ ∃ e, r = .error e) ∨ r = .ok () ∧ ∃ who pre sc post, s.pool = pre ++ (who, sc) :: post ∧
      s' = removedState c s (pre ++ post) who := by
  rcases State.checked_eq_some h with ⟨e, -, he⟩ | ⟨who, -, hw⟩
  · exact .inl ⟨(Prod.mk.inj he).1, e, (Prod.mk.inj he).2⟩
  · rcases removeMember_cases hw with hs | ⟨hr, pre, sc, post, hp, hs⟩
    · exact .inl hs
    · exact .inr ⟨hr, who, pre, sc, post, hp, hs⟩

theorem submitCandidacy_cases {c : Config Account} {s s' : State Account}
    {origin : Origin Account} {append : Except String Unit} {r : Except DispatchError Unit}
    (h : submitCandidacy c s origin append = some (s', r)) :
    (s' = s ∧ ∃ e, r = .error e) ∨ r = .ok () ∧ ∃ who s₁, origin = .signed who ∧
      s.candidateExists who = false ∧
      s.reserve who c.candidateDeposit = some s₁ ∧
      s' = { s₁ with pool := s₁.pool ++ [(who, none)],
                     candidateExists := Function.update s₁.candidateExists who true } := by
  rcases State.checked_eq_some h with ⟨e, -, he⟩ | ⟨who, hc, hw⟩
  · exact .inl ⟨(Prod.mk.inj he).1, e, (Prod.mk.inj he).2⟩
  · have hsigned : origin = .signed who ∧ s.candidateExists who = false := by
      obtain ⟨w, hw, hex⟩ := except_bind_eq_ok.mp hc
      cases hce : s.candidateExists w <;> rw [hce] at hex <;> cases hex
      cases origin <;> cases hw
      exact ⟨rfl, hce⟩
    split at hw
    · obtain ⟨rfl, rfl⟩ := Prod.mk.inj (Option.some_inj.mp hw)
      exact .inl ⟨rfl, _, rfl⟩
    case h_2 s₁ hs₁ =>
      split at hw
      · obtain ⟨rfl, rfl⟩ := Prod.mk.inj (Option.some_inj.mp hw)
        exact .inl ⟨State.unreserve_reserve hs₁, _, rfl⟩
      · obtain ⟨rfl, rfl⟩ := Prod.mk.inj (Option.some_inj.mp hw)
        exact .inr ⟨rfl, who, s₁, hsigned.1, hsigned.2, hs₁, rfl⟩

theorem score_cases {c : Config Account} {s s' : State Account} {origin : Origin Account}
    {dest : Account} {index : Codec.U32} {sc : Score} {r : Except DispatchError Unit}
    (h : score c s origin dest index sc = some (s', r)) :
    (s' = s ∧ ∃ e, r = .error e) ∨ r = .ok () ∧ ∃ who pre sc₀ post, c.lookup dest = .ok who ∧
      s.pool = pre ++ (who, sc₀) :: post ∧ pre.length = index.val ∧
      s' = { s with pool := (pre ++ post).take (scoreLocation (pre ++ post) sc) ++
        (who, some sc) :: (pre ++ post).drop (scoreLocation (pre ++ post) sc) } := by
  rcases State.checked_eq_some h with ⟨e, -, he⟩ | ⟨who, hc, hw⟩
  · exact .inl ⟨(Prod.mk.inj he).1, e, (Prod.mk.inj he).2⟩
  · have hi : c.lookup dest = .ok who ∧ ensureIndex s.pool who index = .ok () := by
      simp only [except_bind_eq_ok, pure, Except.pure, Except.ok.injEq] at hc
      obtain ⟨_, -, w, hl, _, hi, rfl⟩ := hc
      cases hd : c.lookup dest <;> rw [hd] at hl <;> cases hl
      exact ⟨rfl, hi⟩
    obtain ⟨pre, sc₀, post, hp, hlen⟩ := ensureIndex_eq_ok hi.2
    rw [hp, ← hlen, vecRemove_middle] at hw
    simp only [Option.bind_eq_bind, Option.some_bind, vecInsert] at hw
    split at hw
    · simp only [Option.pure_def, Option.some_bind, Option.some_inj] at hw
      obtain ⟨rfl, rfl⟩ := Prod.mk.inj hw
      exact .inr ⟨rfl, who, pre, sc₀, post, hi.1, hp, hlen, rfl⟩
    · cases hw

omit [LinearOrder Account] in
theorem changeMemberCount_cases {s s' : State Account} {origin : Origin Account}
    {count : Codec.U32} {r : Except DispatchError Unit}
    (h : changeMemberCount s origin count = some (s', r)) :
    (s' = s ∧ ∃ e, r = .error e) ∨ r = .ok () ∧ s' = { s with memberCount := count } := by
  rcases State.checked_eq_some h with ⟨e, -, he⟩ | ⟨⟨⟩, -, hw⟩
  · exact .inl ⟨(Prod.mk.inj he).1, e, (Prod.mk.inj he).2⟩
  · obtain ⟨rfl, rfl⟩ := Prod.mk.inj (Option.some_inj.mp hw)
    exact .inr ⟨rfl, rfl⟩

/-- Every call that returns `Err` leaves the storage and the balances as they were:
its checks fail before it writes, and the reserve before a failed append is undone. -/
theorem dispatch_error_unchanged {c : Config Account} {s s' : State Account}
    {origin : Origin Account} {call : Call Account} {e : DispatchError}
    (h : dispatch c s origin call = some (s', .error e)) : s' = s := by
  have hne : ∀ {P : Prop}, ¬(Except.error e = .ok () ∧ P) := fun h => nomatch h.1
  cases call with
  | submitCandidacy append => exact ((submitCandidacy_cases h).resolve_right hne).1
  | withdrawCandidacy index => exact ((checked_removeMember_cases h).resolve_right hne).1
  | kick dest index => exact ((checked_removeMember_cases h).resolve_right hne).1
  | score dest index sc => exact ((score_cases h).resolve_right hne).1
  | changeMemberCount count => exact ((changeMemberCount_cases h).resolve_right hne).1

/-- A deposit of 10, a refresh every 5 blocks, `score` and `kick` from root only, and
accounts that are their own lookup. -/
def rootOnly : Config Nat := ⟨10, 5, fun o => o == .root, fun o => o == .root, .ok⟩

def noCandidates : State Nat :=
  ⟨[], fun _ => false, [], 1, fun a => if a = 2 then 10 else 0, fun _ => 0⟩

theorem submitCandidacy_failed_append_unchanged :
    ∃ s', dispatch rootOnly noCandidates (.signed 2) (.submitCandidacy (.error "could not append")) =
      some (s', .error (.msg "could not append")) ∧ s' = noCandidates :=
  have h : dispatch rootOnly noCandidates (.signed 2) (.submitCandidacy (.error "could not append")) =
      some (_, .error (.msg "could not append")) := rfl
  ⟨_, h, dispatch_error_unchanged h⟩

end Substrate.ScoredPool
