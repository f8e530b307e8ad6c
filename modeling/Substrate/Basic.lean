import Mathlib.Algebra.Group.Nat.Basic
import Mathlib.Order.Basic
import Mathlib.Data.List.Forall2

/-! Bytes, and the three ways a call of runtime code can end. Rust's `Result`
is `Except`; a call that can also panic (an `expect`, a `copy_from_slice` of the
wrong length) returns an `Outcome`. -/
namespace Substrate

abbrev Byte := Fin 256

abbrev Bytes := List Byte

/-- A call returns `Ok`, returns `Err`, or panics. -/
inductive Outcome (ε α : Type) where
  | ok (a : α)
  | err (e : ε)
  | panicked
  deriving DecidableEq, Repr

namespace Outcome

variable {ε α β : Type}

def bind : Outcome ε α → (α → Outcome ε β) → Outcome ε β
  | ok a, f => f a
  | err e, _ => err e
  | panicked, _ => panicked

instance : Monad (Outcome ε) where
  pure := ok
  bind := bind

@[simp] theorem pure_eq (a : α) : (pure a : Outcome ε α) = ok a := rfl
@[simp] theorem ok_bind (a : α) (f : α → Outcome ε β) : (ok a >>= f) = f a := rfl
@[simp] theorem err_bind (e : ε) (f : α → Outcome ε β) : (err e >>= f) = err e := rfl
@[simp] theorem panicked_bind (f : α → Outcome ε β) : (panicked >>= f) = panicked := rfl

instance : LawfulMonad (Outcome ε) := LawfulMonad.mk' _
  (fun x => by cases x <;> rfl)
  (fun _ _ => rfl)
  (fun x _ _ => by cases x <;> rfl)

@[simp] theorem bind_eq (x : Outcome ε α) (f : α → Outcome ε β) : x.bind f = x >>= f := rfl

theorem bind_eq_ok {x : Outcome ε α} {f : α → Outcome ε β} {b : β} :
    x >>= f = ok b ↔ ∃ a, x = ok a ∧ f a = ok b := by
  cases x <;> simp

/-- An invariant that every step of a loop keeps holds after the loop, if it ends `Ok`. -/
theorem foldlM_invariant {f : β → α → Outcome ε β} {P : β → Prop}
    (hf : ∀ b a b', P b → f b a = ok b' → P b') :
    ∀ {l : List α} {b b' : β}, P b → l.foldlM f b = ok b' → P b'
  | [], _, _, hb, h => by cases h; exact hb
  | a :: l, b, _, hb, h => by
    rw [List.foldlM_cons, bind_eq_ok] at h
    obtain ⟨b₁, h₁, h₂⟩ := h
    exact foldlM_invariant hf (hf b a b₁ hb h₁) h₂

/-- A loop that builds a list succeeds exactly when every call does. -/
theorem mapM_eq_ok {f : α → Outcome ε β} {l : List α} {bs : List β} :
    l.mapM f = ok bs ↔ List.Forall₂ (fun a b => f a = ok b) l bs := by
  induction l generalizing bs with
  | nil => rw [List.mapM_nil]; cases bs <;> simp
  | cons a l ih =>
    simp only [List.mapM_cons, bind_eq_ok, pure_eq, ih]
    cases bs with
    | nil => simp
    | cons b bs =>
      simp only [ok.injEq, List.cons.injEq, List.forall₂_cons]
      exact ⟨fun ⟨_, ha, _, hl, he⟩ => he.1 ▸ he.2 ▸ ⟨ha, hl⟩, fun ⟨ha, hl⟩ => ⟨_, ha, _, hl, rfl, rfl⟩⟩

/-- A `Result` seen as an outcome that does not panic. -/
def ofExcept : Except ε α → Outcome ε α
  | .ok a => ok a
  | .error e => err e

@[simp] theorem ofExcept_ok (a : α) : ofExcept (.ok a : Except ε α) = ok a := rfl
@[simp] theorem ofExcept_error (e : ε) : ofExcept (.error e : Except ε α) = err e := rfl

theorem ofExcept_eq_ok {x : Except ε α} {a : α} : ofExcept x = ok a ↔ x = .ok a := by
  cases x <;> simp

/-- `expect`: an `Err` becomes a panic. -/
def expect {ε' : Type} : Outcome ε α → Outcome ε' α
  | ok a => ok a
  | _ => panicked

@[simp] theorem expect_ok {ε' : Type} (a : α) : (expect (ok a : Outcome ε α) : Outcome ε' α) = ok a :=
  rfl

/-- The outcome with the text of an `Err` forgotten. -/
def eraseErr : Outcome ε α → Outcome Unit α
  | ok a => ok a
  | err _ => err ()
  | panicked => panicked

theorem eraseErr_bind_congr {ε' : Type} {x₁ : Outcome ε α} {x₂ : Outcome ε' α}
    {f₁ : α → Outcome ε β} {f₂ : α → Outcome ε' β} (hx : x₁.eraseErr = x₂.eraseErr)
    (hf : ∀ a, (f₁ a).eraseErr = (f₂ a).eraseErr) : (x₁ >>= f₁).eraseErr = (x₂ >>= f₂).eraseErr := by
  cases x₁ <;> cases x₂ <;> cases hx <;> first | exact hf _ | rfl

theorem expect_congr {ε' ε'' : Type} {x₁ : Outcome ε α} {x₂ : Outcome ε' α}
    (h : x₁.eraseErr = x₂.eraseErr) : (x₁.expect : Outcome ε'' α) = x₂.expect := by
  cases x₁ <;> cases x₂ <;> cases h <;> rfl

/-- Two `Result`s that succeed with the same values give the same outcome once the
text of an `Err` is forgotten. -/
theorem eraseErr_ofExcept_congr {ε' : Type} {e₁ : Except ε α} {e₂ : Except ε' α}
    (h : ∀ a, e₁ = .ok a ↔ e₂ = .ok a) : (ofExcept e₁).eraseErr = (ofExcept e₂).eraseErr := by
  cases e₁ with
  | ok a => rw [(h a).mp rfl]; rfl
  | error e =>
    cases e₂ with
    | ok a => cases (h a).mpr rfl
    | error e' => rfl

end Outcome

theorem except_bind_eq_ok {ε α β : Type} {x : Except ε α} {f : α → Except ε β} {b : β} :
    x >>= f = .ok b ↔ ∃ a, x = .ok a ∧ f a = .ok b := by
  cases x <;> simp [bind, Except.bind]

theorem except_map_eq_ok {ε α β : Type} {x : Except ε α} {f : α → β} {b : β} :
    x.map f = .ok b ↔ ∃ a, x = .ok a ∧ f a = b := by
  cases x <;> simp [Except.map]

end Substrate
