-- SUMMARY: Related optional values, which are both absent or both present, and the operations that keep them related.
import Mathlib.Data.List.Forall2
/-!
# Related options

`Option.Rel R` relates values that are both absent, or both present and related by `R`. Whatever is
made of such values in the same way on both sides is related again.
-/

namespace Option

variable {α β γ δ : Type} {R : α → β → Prop} {S : γ → δ → Prop} {x x' : Option α} {y y' : Option β}

@[simp]
theorem rel_none_left : Rel R none y ↔ y = none := by
  constructor
  · rintro ⟨⟩
    rfl
  · rintro rfl
    exact .none

@[simp]
theorem rel_some_left {a : α} : Rel R (some a) y ↔ ∃ b, y = some b ∧ R a b := by
  constructor
  · rintro ⟨⟩
    exact ⟨_, rfl, ‹_›⟩
  · rintro ⟨b, rfl, hab⟩
    exact .some hab

namespace Rel

theorem refl {R : α → α → Prop} (h : ∀ a, x = .some a → R a a) : Option.Rel R x x := by
  cases x with
  | none => exact .none
  | some a => exact .some (h a rfl)

theorem flip (h : Option.Rel R x y) : Option.Rel (fun b a => R a b) y x := by
  cases h with
  | none => exact .none
  | some hab => exact .some hab

theorem imp {R' : α → β → Prop} (h : Option.Rel R x y)
    (hR : ∀ {a b}, x = .some a → y = .some b → R a b → R' a b) : Option.Rel R' x y := by
  cases h with
  | none => exact .none
  | some hab => exact .some (hR rfl rfl hab)

theorem isSome_eq (h : Option.Rel R x y) : y.isSome = x.isSome := by cases h <;> rfl

theorem map (h : Option.Rel R x y) {f : α → γ} {g : β → δ} (hfg : ∀ {a b}, R a b → S (f a) (g b)) :
    Option.Rel S (x.map f) (y.map g) := by
  cases h with
  | none => exact .none
  | some hab => exact .some (hfg hab)

theorem bind (h : Option.Rel R x y) {f : α → Option γ} {g : β → Option δ}
    (hfg : ∀ {a b}, R a b → Option.Rel S (f a) (g b)) : Option.Rel S (x.bind f) (y.bind g) := by
  cases h with
  | none => exact .none
  | some hab => exact hfg hab

theorem or (h : Option.Rel R x y) (h' : Option.Rel R x' y') :
    Option.Rel R (x.or x') (y.or y') := by
  cases h with
  | none => exact h'
  | some hab => exact .some hab

end Rel

end Option

theorem List.Forall₂.rel_head? {α β : Type} {R : α → β → Prop} {l : List α} {l' : List β}
    (h : List.Forall₂ R l l') : Option.Rel R l.head? l'.head? := by
  cases h with
  | nil => exact .none
  | cons hab _ => exact .some hab
