import Substrate.Collections

/-! `srml/support/src/error.rs`: the enum `decl_error!` declares and the functions it
generates for it. The enum has `Other(&'static str)`, `CannotLookup` and the declared
variants; `as_u8` is the match that the `@GENERATE_AS_U8` recursion builds arm by arm,
`as_str` names the variant, and `into` packs both into a `DispatchError`. -/
namespace Substrate.Support

/-- A value of the enum declared with the variant names `names`: `Other`,
`CannotLookup`, or the `i`-th declared variant. -/
inductive ModuleError (names : List String) where
  | other (msg : String)
  | cannotLookup
  | declared (i : Fin names.length)
  deriving DecidableEq, Repr

/-- The `DispatchError` that `into` builds, as the module index, error index and
message given to `DispatchError::new`; `DispatchError` is not among the files given. -/
structure DispatchError where
  module : Option UInt8
  error : UInt8
  message : Option String
  deriving DecidableEq, Repr

/-- `@GENERATE_AS_U8`: a step puts the arm `$error::$name => $index` after the arms
generated so far and goes on with `$index + 1` and the remaining names; the last step
closes the match. An arm's constant `2 + 1 + ... + 1` is kept as the number it adds
up to. -/
def generateAsU8 (generated : List (String × Nat)) (index : Nat) : List String → List (String × Nat)
  | [] => generated
  | name :: rest => generateAsU8 (generated ++ [(name, index)]) (index + 1) rest

namespace ModuleError

variable {names : List String}

/-- `as_u8`: the match `@GENERATE_AS_U8` closes, with the arms for `Other` and
`CannotLookup` first and the generated arms, started at `2`, after them. The arms
cover every declared name, so the lookup never falls through. -/
def asU8 : ModuleError names → UInt8
  | other _ => 0
  | cannotLookup => 1
  | declared i => UInt8.ofNat ((lookupKey (names.get i) (generateAsU8 [] 2 names)).getD 0)

@[simp] theorem asU8_other (msg : String) : (other msg : ModuleError names).asU8 = 0 := rfl

@[simp] theorem asU8_cannotLookup : (cannotLookup : ModuleError names).asU8 = 1 := rfl

def asStr : ModuleError names → String
  | other err => err
  | cannotLookup => "Can not lookup"
  | declared i => names.get i

/-- `Into<DispatchError>`: `DispatchError::new(None, self.as_u8(), Some(self.as_str()))`. -/
def into (e : ModuleError names) : DispatchError := ⟨none, e.asU8, some e.asStr⟩

/-- Two values of the same variant: `Other` with any texts, `CannotLookup`, or one
declared variant. -/
def SameVariant : ModuleError names → ModuleError names → Prop
  | other _, other _ => True
  | cannotLookup, cannotLookup => True
  | declared i, declared j => i = j
  | _, _ => False

end ModuleError

theorem generateAsU8_eq (generated : List (String × Nat)) (index : Nat) (names : List String) :
    generateAsU8 generated index names = generated ++ names.zip (List.range' index names.length) := by
  induction names generalizing generated index with
  | nil => simp [generateAsU8]
  | cons name rest ih => simp [generateAsU8, ih, List.range'_succ]

theorem lookupKey_generateAsU8 {names : List String} (hn : names.Nodup) (i : Fin names.length) :
    lookupKey (names.get i) (generateAsU8 [] 2 names) = some (i.val + 2) := by
  have hkeys : ((names.zip (List.range' 2 names.length)).map Prod.fst) = names :=
    List.map_fst_zip _ _ (by simp)
  rw [generateAsU8_eq, List.nil_append]
  refine lookupKey_of_mem (by rw [hkeys]; exact hn) ?_
  rw [List.mem_iff_getElem]
  exact ⟨i.val, by simp, by simp [Nat.add_comm]⟩

/-- On distinct names, the `i`-th declared variant gets the constant `i + 2`, taken in a `u8`. -/
theorem asU8_declared {names : List String} (hn : names.Nodup) (i : Fin names.length) :
    (ModuleError.declared i).asU8 = UInt8.ofNat (i.val + 2) := by
  rw [ModuleError.asU8, lookupKey_generateAsU8 hn, Option.getD_some]

/-- For every list of distinct variant names whose arm constants all fit in a `u8`, `as_u8` maps
`Other` to 0, `CannotLookup` to 1 and the `i`-th declared variant to `i + 2`; so it, and
the error index of `into`, tell the variants apart. -/
theorem asU8_numbering {names : List String} (hn : names.Nodup) (hlen : names.length ≤ 254) :
    (∀ msg, (ModuleError.other msg : ModuleError names).asU8.toNat = 0) ∧
      (ModuleError.cannotLookup : ModuleError names).asU8.toNat = 1 ∧
      (∀ i : Fin names.length, (ModuleError.declared i).asU8.toNat = i.val + 2) ∧
      (∀ e₁ e₂ : ModuleError names, e₁.asU8 = e₂.asU8 ↔ e₁.SameVariant e₂) ∧
      ∀ e₁ e₂ : ModuleError names, e₁.into.error = e₂.into.error ↔ e₁.SameVariant e₂ := by
  have hdecl : ∀ i : Fin names.length, (ModuleError.declared i).asU8.toNat = i.val + 2 := fun i => by
    rw [asU8_declared hn]
    exact UInt8.toNat_ofNat_of_lt (by have := i.isLt; simp [UInt8.size]; omega)
  have hiff : ∀ e₁ e₂ : ModuleError names, e₁.asU8 = e₂.asU8 ↔ e₁.SameVariant e₂ := by
    intro e₁ e₂
    have htoNat : e₁.asU8 = e₂.asU8 ↔ e₁.asU8.toNat = e₂.asU8.toNat :=
      ⟨congrArg _, UInt8.eq_of_val_eq ∘ Fin.eq_of_val_eq⟩
    rw [htoNat]
    cases e₁ <;> cases e₂ <;> simp [ModuleError.SameVariant, hdecl, Fin.ext_iff]
  exact ⟨fun _ => rfl, rfl, hdecl, hiff, hiff⟩

theorem asU8_numbering_two :
    ["Overflow", "Underflow"].Nodup ∧ ["Overflow", "Underflow"].length ≤ 254 ∧
      (∀ msg, (ModuleError.other msg : ModuleError ["Overflow", "Underflow"]).asU8.toNat = 0) ∧
      (ModuleError.cannotLookup : ModuleError ["Overflow", "Underflow"]).asU8.toNat = 1 ∧
      (∀ i : Fin ["Overflow", "Underflow"].length, (ModuleError.declared i).asU8.toNat = i.val + 2) ∧
      (∀ e₁ e₂ : ModuleError ["Overflow", "Underflow"], e₁.asU8 = e₂.asU8 ↔ e₁.SameVariant e₂) ∧
      ∀ e₁ e₂ : ModuleError ["Overflow", "Underflow"],
        e₁.into.error = e₂.into.error ↔ e₁.SameVariant e₂ :=
  ⟨by decide, by decide, asU8_numbering (by decide) (by decide)⟩

def manyVariants (n : Nat) : List String := (List.range n).map fun i => String.mk (List.replicate (i + 1) 'V')

theorem manyVariants_nodup (n : Nat) : (manyVariants n).Nodup := by
  refine (List.nodup_range n).map fun a b h => ?_
  have := congrArg String.length h
  simp only [String.length, List.length_replicate] at this
  omega

/-- With 255 declared variants the last arm's constant `2 + 254` does not fit in a `u8`
and wraps to 0: `as_u8` gives the last declared variant the number of `Other`. -/
theorem asU8_wraps_at_255 :
    (manyVariants 255).Nodup ∧ (manyVariants 255).length = 255 ∧
      (ModuleError.declared ⟨254, by simp [manyVariants]⟩ : ModuleError (manyVariants 255)).asU8 =
        (ModuleError.other "" : ModuleError (manyVariants 255)).asU8 ∧
      ¬ (ModuleError.declared ⟨254, by simp [manyVariants]⟩ : ModuleError (manyVariants 255)).SameVariant
        (ModuleError.other "") := by
  refine ⟨manyVariants_nodup 255, by simp [manyVariants], ?_, fun h => h⟩
  rw [asU8_declared (manyVariants_nodup 255)]
  rfl

end Substrate.Support
