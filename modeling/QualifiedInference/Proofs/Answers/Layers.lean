-- SUMMARY: The qualifiers along an alias chain, laid over one another before they are laid over its type.
import QualifiedInference.Proofs.Answers.Chains
import QualifiedInference.Proofs.Qualifiers
/-!
# Layers of qualifiers

Every alias of a chain lays its qualifiers over the type below it. Since overlaying is associative,
these layers can be laid over one another first: their `stack` has in each hierarchy what the first
layer that mentions the hierarchy has there, and a collapse lays it over the type at the end of the
chain (`collapse_overlays_stack`).
-/

namespace QualifiedInference

namespace Qualifiers

variable {layers : List Qualifiers}

/-- The layers laid over one another, the first of them on top. -/
def stack (layers : List Qualifiers) : Qualifiers :=
  layers.foldr (fun layer below => below.overlay layer) ∅

theorem stack_nil : stack [] = ∅ := rfl

theorem stack_cons (layer : Qualifiers) (layers : List Qualifiers) :
    stack (layer :: layers) = (stack layers).overlay layer := rfl

/-- In each hierarchy the topmost layer that mentions it shows. -/
theorem mem_stack {q : Qualifier} : q ∈ stack layers ↔
    ∃ layer, layers.find? (·.Mentions q.hierarchy) = some layer ∧ q ∈ layer := by
  induction layers with
  | nil => simp [stack_nil, not_mem_empty]
  | cons layer layers ih =>
    rw [stack_cons, mem_overlay_iff, ih, List.find?_cons]
    by_cases hlayer : layer.Mentions q.hierarchy
    · simp [hlayer]
    · have hq : q ∉ layer := fun hq => hlayer ⟨q, hq, rfl⟩
      simp [hlayer, hq]

theorem Single.stack (h : ∀ layer ∈ layers, layer.Single) : (stack layers).Single := by
  induction layers with
  | nil => exact fun q hq => absurd hq not_mem_empty
  | cons layer layers ih =>
    exact (ih fun below hbelow => h below (.tail _ hbelow)).overlay (h layer (.head _))

end Qualifiers

namespace Ty

open Qualifiers

theorem overlay_empty (ty : Ty) : ty.overlay ∅ = ty := by
  rw [overlay, Qualifiers.overlay_empty]
  cases ty <;> rfl

theorem overlay_overlay (ty : Ty) (s t : Qualifiers) :
    (ty.overlay s).overlay t = ty.overlay (s.overlay t) := by
  cases ty <;> simp only [overlay, withQualifiers, qualifiers, overlay_assoc]

theorem foldr_overlay (ty : Ty) (layers : List Qualifiers) :
    layers.foldr (fun layer below => below.overlay layer) ty = ty.overlay (stack layers) := by
  induction layers with
  | nil => exact ty.overlay_empty.symm
  | cons layer layers ih => rw [List.foldr_cons, ih, overlay_overlay, stack_cons]

theorem overlayAll_eq_overlay (ty : Ty) (extras : List Qualifiers) :
    ty.overlayAll extras = ty.overlay (stack extras) := by
  induction extras with
  | nil => rw [overlayAll_nil, stack_nil, overlay_empty]
  | cons extra extras ih => rw [overlayAll_cons, ih, overlay_overlay, stack_cons]

end Ty

namespace Answers

open Qualifiers

variable {r : Answers} {t : Target} {ty : Ty}

theorem yields_iff_collects : r.Yields t ty ↔ ∃ extras u end_, r.Collects t extras u ∧
    r.typeOf? u = some end_ ∧ ty = end_.overlay (stack extras) := by
  constructor
  · intro hy
    induction hy with
    | @type t ty ht => exact ⟨[], t, ty, .here t, typeOf?_eq_some.2 ht, ty.overlay_empty.symm⟩
    | link ht _ ih =>
      obtain ⟨extras, u, end_, hextras, hu, rfl⟩ := ih
      exact ⟨_, u, end_, .link ht hextras, hu, Ty.overlay_overlay ..⟩
  · rintro ⟨extras, u, end_, hextras, hu, rfl⟩
    rw [← Ty.overlayAll_eq_overlay]
    exact hextras.yields hu

/-- To lay `b` and then `c` over a set is to lay `b.overlay c` over it. The empty set is neutral on
    both sides, laying the same set over once more changes nothing, and sets with one qualifier in a
    hierarchy stay such. So the overlays along a chain are one overlay with the stack of its layers,
    and the types of a collapse are those at the ends of chains under the stacks. -/
theorem collapse_overlays_stack :
    (∀ a b c : Qualifiers, (a.overlay b).overlay c = a.overlay (b.overlay c)) ∧
    (∀ a : Qualifiers, a.overlay ∅ = a ∧ (∅ : Qualifiers).overlay a = a) ∧
    (∀ a b : Qualifiers, (a.overlay b).overlay b = a.overlay b) ∧
    (∀ a b : Qualifiers, a.Single → b.Single → (a.overlay b).Single) ∧
    (∀ (ty : Ty) (layers : List Qualifiers),
      layers.foldr (fun layer below => below.overlay layer) ty = ty.overlay (stack layers)) ∧
    (∀ (layers : List Qualifiers) (q : Qualifier), q ∈ stack layers ↔
      ∃ layer, layers.find? (·.Mentions q.hierarchy) = some layer ∧ q ∈ layer) ∧
    (∀ layers : List Qualifiers, (∀ layer ∈ layers, layer.Single) → (stack layers).Single) ∧
    ∀ (r : Answers) (t : Target) (ty : Ty), r.collapse.typeOf? t = some ty ↔
      ∃ extras u end_, r.Collects t extras u ∧ r.typeOf? u = some end_ ∧
        ty = end_.overlay (stack extras) := by
  refine ⟨overlay_assoc, fun a => ⟨overlay_empty a, empty_overlay a⟩, overlay_overlay_self,
    fun a b => Single.overlay, Ty.foldr_overlay, fun layers q => mem_stack,
    fun layers => Single.stack, fun r t ty => ?_⟩
  rw [typeOf?_collapse, yields_iff_collects]

end Answers

end QualifiedInference
