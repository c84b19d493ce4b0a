-- SUMMARY: Properties of all records that a store can come to hold.
import QualifiedInference.Proofs.Maps
import QualifiedInference.Proofs.Solving
import QualifiedInference.Strategy.Bounds
/-!
# Recorded constraints

A store is made with empty records, may be forked, and takes operands one at a time. So whatever
an empty record has and no operand takes away, all its records have (`Recorded.record_induction`).
Bare qualifiers stand under the tops of their hierarchies (`Recorded.keyed`).
-/

namespace QualifiedInference

/-! ## Bare qualifiers -/

/-- `top` is the top of the hierarchy of `q`. -/
def QualifierOrder.IsTop (order : QualifierOrder) (top q : Qualifier) : Prop := order.top q = top

/-- `K` holds of each qualifier given exactly and the top it stands under. -/
def Relations.AllExact (K : Qualifier → Qualifier → Prop) (rel : Relations Qualifier) : Prop :=
  ∀ top q, rel.primaries.get? top = some q → K top q

/-- `K` holds of each qualifier bound and the top it stands under, and no top stands there without
    a bound. -/
def Relations.AllBounds (K : Qualifier → Qualifier → Prop) (rel : Relations Qualifiers) : Prop :=
  ∀ top qs, rel.primaries.get? top = some qs → (∃ q, q ∈ qs) ∧ ∀ q ∈ qs, K top q

section Bare

variable {K : Qualifier → Qualifier → Prop} {order : QualifierOrder} {qs : Qualifiers}

theorem Relations.AllExact.addExact {rel : Relations Qualifier} (h : rel.AllExact K)
    (hqs : ∀ q ∈ qs, K (order.top q) q) : (rel.addExact order qs).AllExact K := by
  suffices hfold : ∀ (l : List Qualifier) (ps : OrderedMap Qualifier Qualifier),
      (∀ q ∈ l, K (order.top q) q) → (∀ top q, ps.get? top = some q → K top q) →
      ∀ top q, (l.foldl (fun ps q => ps.insertIfNew (order.top q) q) ps).get? top = some q →
        K top q from hfold qs.toList _ hqs h
  intro l
  induction l with
  | nil => exact fun _ _ hps => hps
  | cons p l ih =>
    intro ps hl hps
    refine ih _ (fun q hq => hl q (.tail _ hq)) fun top q hget => ?_
    simp only [OrderedMap.insertIfNew, OrderedMap.get?_upsert] at hget
    split at hget
    · next htop =>
      subst htop
      -- The first qualifier under a top stays.
      cases hp : ps.get? (order.top p) with
      | none => rw [hp] at hget; cases hget; exact hl _ (.head _)
      | some old => rw [hp] at hget; cases hget; exact hps _ _ hp
    · exact hps _ _ hget

theorem Relations.AllBounds.addBounds {rel : Relations Qualifiers} (h : rel.AllBounds K)
    (hqs : ∀ q ∈ qs, K (order.top q) q) : (rel.addBounds order qs).AllBounds K := by
  suffices hfold : ∀ (l : List Qualifier) (ps : OrderedMap Qualifier Qualifiers),
      (∀ q ∈ l, K (order.top q) q) →
      (∀ top bs, ps.get? top = some bs → (∃ q, q ∈ bs) ∧ ∀ q ∈ bs, K top q) →
      ∀ top bs, (l.foldl (fun ps q => ps.upsert (order.top q) fun old => (old.getD ∅).insert q)
        ps).get? top = some bs → (∃ q, q ∈ bs) ∧ ∀ q ∈ bs, K top q from hfold qs.toList _ hqs h
  intro l
  induction l with
  | nil => exact fun _ _ hps => hps
  | cons p l ih =>
    intro ps hl hps
    refine ih _ (fun q hq => hl q (.tail _ hq)) fun top bs hget => ?_
    simp only [OrderedMap.get?_upsert] at hget
    split at hget
    · next htop =>
      subst htop
      cases hget
      refine ⟨⟨p, Qualifiers.mem_insert.2 (.inl rfl)⟩, fun q hq => ?_⟩
      rcases Qualifiers.mem_insert.1 hq with rfl | hq
      · exact hl _ (.head _)
      · cases hp : ps.get? (order.top p) with
        | none => rw [hp] at hq; cases hq
        | some old => rw [hp] at hq; exact (hps _ _ hp).2 q hq
    · exact hps _ _ hget

namespace Record

/-- `K` holds of each bare qualifier and the top it stands under. -/
structure AllBare (K : Qualifier → Qualifier → Prop) (r : Record) : Prop where
  exact : r.equalities.AllExact K
  below : r.supertypes.AllBounds K
  above : r.subtypes.AllBounds K

variable {r : Record}

theorem AllBare.bounds (h : r.AllBare K) (side : Side) : (side.relations r).AllBounds K := by
  cases side with
  | lower => exact h.below
  | upper => exact h.above

theorem AllBare.new (K : Qualifier → Qualifier → Prop) (t : Target) : (Record.new t).AllBare K :=
  ⟨nofun, nofun, nofun⟩

theorem AllBare.relate (h : r.AllBare K) (rel : Relation) {operand : Operand}
    (hoperand : ∀ qs, operand = .qualifiers qs → ∀ q ∈ qs, K (order.top q) q) :
    (r.relate order rel operand).AllBare K := by
  -- Targets and types are recorded apart from bare qualifiers.
  cases operand with
  | target other tops => cases rel <;> exact ⟨h.exact, h.below, h.above⟩
  | type ty tops => cases rel <;> exact ⟨h.exact, h.below, h.above⟩
  | qualifiers qs =>
    have hqs := hoperand qs rfl
    cases rel with
    | equal => exact ⟨h.exact.addExact hqs, h.below, h.above⟩
    | subtype => exact ⟨h.exact, h.below, h.above.addBounds hqs⟩
    | supertype => exact ⟨h.exact, h.below.addBounds hqs, h.above⟩

/-- Each bare qualifier stands under the top of its hierarchy. -/
abbrev Keyed (order : QualifierOrder) : Record → Prop := AllBare order.IsTop

end Record

end Bare

/-! ## Stores -/

namespace Store

theorem record?_new (branch : Nat) (targets : List Target) (t : Target) :
    (Store.new branch targets).record? t = if t ∈ targets then some (.new t) else none := by
  rw [record?, new, TargetMap.get?_ofList_map fun t => Slot.mk (.new t) ⟨branch, 0⟩]
  split <;> rfl

/-- The store has been made, forked and written to, with hierarchies as in `order`. -/
inductive Recorded (order : QualifierOrder) : Store → Prop
  | new (branch : Nat) (targets : List Target) : Recorded order (.new branch targets)
  | fork {s : Store} (h : Recorded order s) (branch : Nat) : Recorded order (s.fork branch)
  | add {s s' : Store} {t : Target} {rel : Relation} {operand : Operand} (h : Recorded order s)
      (hadd : s.add order t rel operand = .ok s') : Recorded order s'

variable {order : QualifierOrder} {s s' : Store} {t u : Target} {rel : Relation}
  {operand : Operand}

theorem add_eq_ok (h : s.add order t rel operand = .ok s') :
    t ∈ s.targets ∧ s' = s.write t fun r => r.relate order rel operand := by
  unfold add at h
  split at h
  · next ht => exact ⟨contains_iff.1 ht, (Except.ok.inj h).symm⟩
  · cases h

theorem record?_add (h : s.add order t rel operand = .ok s') (u : Target) :
    s'.record? u = if u = t then (s.record? t).map (·.relate order rel operand)
      else s.record? u := by
  rw [(add_eq_ok h).2, record?_write]

namespace Recorded

theorem write (h : s.Recorded order) (ht : t ∈ s.targets) (rel : Relation) (operand : Operand) :
    (s.write t fun r => r.relate order rel operand).Recorded order :=
  .add h (if_pos (contains_iff.2 ht))

/-- What an empty record has and every operand keeps, the records of such a store have. -/
theorem record_induction {P : Record → Prop} (h : s.Recorded order) (hnew : ∀ t, P (.new t))
    (hrelate : ∀ r rel operand, P r → P (r.relate order rel operand)) {r : Record}
    (hr : s.record? t = some r) : P r := by
  induction h generalizing t r with
  | new branch targets =>
    rw [record?_new] at hr
    split at hr
    · cases hr; exact hnew t
    · cases hr
  | fork _ _ ih => exact ih hr
  | add _ hadd ih =>
    rw [record?_add hadd] at hr
    split at hr
    · obtain ⟨r₀, hr₀, rfl⟩ := Option.map_eq_some_iff.1 hr
      exact hrelate r₀ _ _ (ih hr₀)
    · exact ih hr

theorem keyed (h : s.Recorded order) {r : Record} (hr : s.record? t = some r) : r.Keyed order :=
  h.record_induction (.new _) (fun _ rel _ hr => hr.relate rel fun _ _ _ _ => rfl) hr

end Recorded

end Store

end QualifiedInference
