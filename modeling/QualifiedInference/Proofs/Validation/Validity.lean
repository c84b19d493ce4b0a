-- SUMMARY: Valid scenarios, said of their names alone.
import QualifiedInference.Proofs.Validation.Registration
/-!
# Valid scenarios

What makes a scenario valid, said of its names alone: the names of hierarchies, types and targets,
and then each constraint by itself. A use of a type is valid if all its names are declared, at every
depth, and each list of qualifiers is known and has no two of one hierarchy. Names and uses are
resolved just if they are valid.
-/

namespace QualifiedInference

/-! ## Validity -/

/-- Valid declarations of hierarchies, types and targets. -/
structure Scenario.WellNamed (s : Scenario) : Prop where
  hierarchies_le : s.qualifiers.length ≤ 65536
  hierarchies_ne_nil : ∀ chain ∈ s.qualifiers, chain ≠ []
  qualifiers_nodup : s.qualifiers.flatten.Nodup
  types_ne_null : ∀ decl ∈ s.types, decl.name ≠ nullName
  types_nodup : (s.types.map TypeDeclaration.name).Nodup
  extends_earlier : ∀ earlier decl later, s.types = earlier ++ decl :: later →
    ∀ super, decl.super? = some super → super ∈ earlier.map TypeDeclaration.name
  targets_nodup : s.targets.Nodup

/-- A use of declared types with known qualifiers, or of the null type. -/
inductive TypeUse.Valid (s : Scenario) : TypeUse → Prop
  | null {qualifiers : List String} : KnownApart s.qualifiers qualifiers →
      Valid s (.mk nullName [] qualifiers)
  | named {name : String} {args : List TypeUse} {qualifiers : List String} :
      name ∈ s.types.map TypeDeclaration.name → (∀ arg ∈ args, Valid s arg) →
      KnownApart s.qualifiers qualifiers → Valid s (.mk name args qualifiers)

def NamedOperand.Valid (s : Scenario) : NamedOperand → Prop
  | .target name => name ∈ s.targets
  | .type use => use.Valid s
  | .qualifiers names => KnownApart s.qualifiers names

/-- All operands that are stated. -/
def StatedConstraint.operands (c : StatedConstraint) : List NamedOperand :=
  c.otherTarget?.toList.map .target ++ c.type?.toList.map .type ++
    c.qualifiers?.toList.map .qualifiers

/-- A constraint on a declared target with one valid operand. It is restricted to hierarchies by
    their tops only, and not at all if it is on bare qualifiers. -/
structure StatedConstraint.Valid (s : Scenario) (c : StatedConstraint) : Prop where
  target : c.target ∈ s.targets
  operand : ∃ operand, c.operands = [operand] ∧ operand.Valid s
  hierarchies : ∀ tops, c.hierarchies? = some tops →
    c.qualifiers? = none ∧ ∀ name ∈ tops, ∃ chain ∈ s.qualifiers, chain.head? = some name

structure Scenario.Valid (s : Scenario) : Prop extends s.WellNamed where
  constraints : ∀ c ∈ s.constraints, c.Valid s

/-! ## Declared types -/

namespace NominalTypes

theorem exists_declareNamed_iff {d : NominalTypes} {decl : TypeDeclaration} :
    (∃ d', d.declareNamed decl = .ok d') ↔ decl.name ≠ nullName ∧ decl.name ∉ d.names ∧
      ∀ super, decl.super? = some super → super ∈ d.names := by
  unfold declareNamed
  split
  · next hnull => simp [hnull]
  · next hnull =>
    simp only [Except.mapError_eq_ok_iff, exists_declare_iff, ne_eq, hnull, not_false_iff, true_and]

theorem names_of_declareNamed {d d' : NominalTypes} {decl : TypeDeclaration}
    (h : d.declareNamed decl = .ok d') : d'.names = decl.name :: d.names := by
  unfold declareNamed at h
  split at h
  · cases h
  · obtain ⟨-, -, hds⟩ := declare_eq_ok_iff.1 (Except.mapError_eq_ok_iff.1 h)
    rw [names, hds]
    rfl

theorem declareAll_checks (types : List TypeDeclaration) :
    ((∃ d, types.foldlM declareNamed ∅ = .ok d) ↔ ∀ earlier decl later,
      types = earlier ++ decl :: later →
        decl.name ≠ nullName ∧ decl.name ∉ earlier.map TypeDeclaration.name ∧
        ∀ super, decl.super? = some super → super ∈ earlier.map TypeDeclaration.name) ∧
    ∀ d, types.foldlM declareNamed ∅ = .ok d →
      ∀ name, name ∈ d.names ↔ name ∈ types.map TypeDeclaration.name := by
  have hchecks := Except.foldlM_checks (f := declareNamed)
    (I := fun done d => ∀ name, name ∈ d.names ↔ name ∈ done.map TypeDeclaration.name)
    (C := fun done decl => decl.name ≠ nullName ∧ decl.name ∉ done.map TypeDeclaration.name ∧
      ∀ super, decl.super? = some super → super ∈ done.map TypeDeclaration.name)
    (fun done d decl hd => by simp only [exists_declareNamed_iff, hd])
    (fun done d decl d' hd hok name => by
      rw [names_of_declareNamed hok, List.mem_cons, hd, List.map_append, List.mem_append,
        List.map_singleton, List.mem_singleton, or_comm])
    (d := []) (b := ∅) (fun name => Iff.rfl) types
  exact hchecks

end NominalTypes

/-! ## Targets -/

namespace TargetNames

theorem ofList_checks {names : List String} (hlen : names.length < 4294967296) :
    ((∃ n, ofList names = .ok n) ↔ names.Nodup) ∧ ∀ n, ofList names = .ok n → n.names = names := by
  have hchecks := Except.foldlM_checks (f := declare) (I := fun done n => n.names = done)
    (C := fun done name => done.length < 4294967296 ∧ name ∉ done)
    (fun done n name hn => ?_) (fun done n name n' hn hok => ?_)
    (d := []) (b := ∅) rfl names
  · refine ⟨hchecks.1.trans ?_, hchecks.2⟩
    rw [List.Nodup, List.pairwise_iff_append_cons]
    simp only [List.nil_append]
    constructor
    · intro h before x after hl a ha heq
      exact (h before x after hl).2 (heq ▸ ha)
    · rintro h before x after rfl
      refine ⟨?_, fun hx => h before x after rfl x hx rfl⟩
      simp only [List.length_append, List.length_cons] at hlen
      omega
  · subst hn
    unfold declare
    split
    · next room =>
      have hroom : n.names.length < 4294967296 := room
      split
      · next hold => simp [hold]
      · next hnew => exact iff_of_true ⟨_, rfl⟩ ⟨hroom, hnew⟩
    · next room =>
      have hfull : ¬n.names.length < 4294967296 := room
      exact iff_of_false nofun fun h => hfull h.1
  · subst hn
    unfold declare at hok
    split at hok
    · split at hok
      · cases hok
      · cases hok; rfl
    · cases hok

end TargetNames

/-! ## Uses of types -/

theorem TypeUse.valid_mk_iff {s : Scenario} {name : String} {args : List TypeUse}
    {qualifiers : List String} : (TypeUse.mk name args qualifiers).Valid s ↔
      KnownApart s.qualifiers qualifiers ∧ (name = nullName ∧ args = [] ∨
        name ∈ s.types.map TypeDeclaration.name ∧ ∀ arg ∈ args, arg.Valid s) := by
  constructor
  · rintro (hqs | ⟨hname, hargs, hqs⟩)
    · exact ⟨hqs, .inl ⟨rfl, rfl⟩⟩
    · exact ⟨hqs, .inr ⟨hname, hargs⟩⟩
  · rintro ⟨hqs, ⟨rfl, rfl⟩ | ⟨hname, hargs⟩⟩
    · exact .null hqs
    · exact .named hname hargs hqs

namespace NominalTypes

theorem exists_resolve_mk_iff {d : NominalTypes} {hs : Hierarchies} {name : String}
    {args : List TypeUse} {qualifiers : List String} :
    (∃ ty, d.resolve hs (.mk name args qualifiers) = .ok ty) ↔
      (∃ qs, hs.resolve qualifiers = .ok qs) ∧ (name = nullName ∧ args = [] ∨
        name ≠ nullName ∧ name ∈ d.names ∧ ∃ tys, d.resolveAll hs args = .ok tys) := by
  rw [resolve]
  cases hs.resolve qualifiers with
  | error e => simp [Except.mapError, bind, Except.bind]
  | ok qs =>
    by_cases hnull : name = nullName
    · cases args <;>
        simp [hnull, Except.mapError, throw, throwThe, MonadExceptOf.throw, bind, Except.bind,
          pure, Except.pure]
    · by_cases hname : name ∈ d.names
      · cases d.resolveAll hs args <;>
          simp [hnull, hname, isDeclared, Except.mapError, bind, Except.bind, pure, Except.pure]
      · simp [hnull, hname, isDeclared, Except.mapError, throw, throwThe, MonadExceptOf.throw,
          bind, Except.bind]

/-- The hierarchies and the types of a scenario are what is registered and declared. -/
structure DeclaredBy (s : Scenario) (hs : Hierarchies) (d : NominalTypes) : Prop where
  registers : hs.Registers s.qualifiers
  names : ∀ name, name ∈ d.names ↔ name ∈ s.types.map TypeDeclaration.name
  null : nullName ∉ s.types.map TypeDeclaration.name

variable {s : Scenario} {d : NominalTypes} {hs : Hierarchies}

mutual

/-- A use is resolved just if it is valid. -/
theorem exists_resolve_iff (h : DeclaredBy s hs d) : ∀ use : TypeUse,
    (∃ ty, d.resolve hs use = .ok ty) ↔ use.Valid s
  | .mk name args qualifiers => by
    have hne : name ∈ s.types.map TypeDeclaration.name → name ≠ nullName :=
      fun hname heq => h.null (heq ▸ hname)
    rw [exists_resolve_mk_iff, TypeUse.valid_mk_iff, h.registers.exists_resolve_iff,
      exists_resolveAll_iff h args, h.names]
    tauto

theorem exists_resolveAll_iff (h : DeclaredBy s hs d) : ∀ uses : List TypeUse,
    (∃ tys, d.resolveAll hs uses = .ok tys) ↔ ∀ use ∈ uses, use.Valid s
  | [] => by simp [resolveAll]
  | use :: rest => by
    rw [List.forall_mem_cons, ← exists_resolve_iff h use, ← exists_resolveAll_iff h rest,
      resolveAll]
    simp [Except.bind_eq_ok_iff, pure, Except.pure]

end

end NominalTypes

end QualifiedInference
