-- SUMMARY: Qualifiers: a hierarchy and a rank in it.
/-!
# Qualifiers

A qualifier is a position in one hierarchy: rank 0 is the hierarchy's top, and larger
ranks lie further down. Qualifiers are ordered by hierarchy first and rank second.
-/

namespace QualifiedInference

abbrev HierarchyId := UInt16

structure Qualifier where
  hierarchy : HierarchyId
  rank : UInt32
deriving DecidableEq, Inhabited

namespace Qualifier

/-- The top of a hierarchy. -/
def top (h : HierarchyId) : Qualifier := ⟨h, 0⟩

def isTop (q : Qualifier) : Bool := q.rank == 0

instance : LT Qualifier :=
  ⟨fun p q => p.hierarchy < q.hierarchy ∨ (p.hierarchy = q.hierarchy ∧ p.rank < q.rank)⟩

instance (p q : Qualifier) : Decidable (p < q) :=
  inferInstanceAs (Decidable (_ ∨ _))

instance : Ord Qualifier :=
  ⟨fun p q => (compare p.hierarchy q.hierarchy).then (compare p.rank q.rank)⟩

theorem lt_def {p q : Qualifier} :
    p < q ↔ p.hierarchy < q.hierarchy ∨ (p.hierarchy = q.hierarchy ∧ p.rank < q.rank) :=
  Iff.rfl

theorem lt_irrefl (q : Qualifier) : ¬q < q := by
  intro h
  rcases lt_def.1 h with h | ⟨-, h⟩
  · exact UInt16.lt_irrefl _ h
  · exact UInt32.lt_irrefl _ h

theorem lt_trans {p q r : Qualifier} (hpq : p < q) (hqr : q < r) : p < r := by
  rcases lt_def.1 hpq with h | ⟨e, h⟩ <;> rcases lt_def.1 hqr with h' | ⟨e', h'⟩
  · exact Or.inl (UInt16.lt_trans h h')
  · exact Or.inl (e' ▸ h)
  · exact Or.inl (e ▸ h')
  · exact Or.inr ⟨e.trans e', UInt32.lt_trans h h'⟩

theorem lt_of_not_lt_of_ne {p q : Qualifier} (h : ¬p < q) (hne : p ≠ q) : q < p := by
  obtain ⟨ph, pr⟩ := p
  obtain ⟨qh, qr⟩ := q
  simp only [lt_def, ne_eq, mk.injEq, UInt16.lt_iff_toNat_lt, UInt32.lt_iff_toNat_lt,
    ← UInt16.toNat_inj, ← UInt32.toNat_inj] at h hne ⊢
  omega

/-- The spelling used where no hierarchy has a name for the qualifier. -/
def describe (q : Qualifier) : String :=
  "Qualifier \x7b hierarchy: HierarchyId(" ++ toString q.hierarchy.toNat ++ "), rank: "
    ++ toString q.rank.toNat ++ " \x7d"

end Qualifier

end QualifiedInference
