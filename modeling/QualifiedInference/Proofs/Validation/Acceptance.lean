-- SUMMARY: Which scenarios are accepted, and which constraint the first error is about.
import QualifiedInference.Proofs.Validation.Validity
import QualifiedInference.Proofs.WellFormed.Report
/-!
# Accepted scenarios

Constraints are resolved one after the other in a problem whose names stay the same, so each is
judged by itself and the first that is not valid is the error. A run is refused for nothing else
than its scenario: strategies are never at fault.
-/

namespace QualifiedInference

namespace Problem

variable {s : Scenario} {p : Problem}

/-- The problem has the hierarchies, types and targets of the scenario. -/
structure NamedBy (s : Scenario) (p : Problem) : Prop where
  declared : NominalTypes.DeclaredBy s p.hierarchies p.types
  targets : p.names.names = s.targets
  store : ∀ t ∈ p.names.targets, t ∈ p.store.targets

/-! ## Constraints -/

theorem exists_target_iff (h : NamedBy s p) {name : String} :
    (∃ t, p.target name = .ok t) ↔ name ∈ s.targets := by
  rw [← h.targets, ← List.isSome_idxOf?]
  unfold target TargetNames.id?
  cases p.names.names.idxOf? name <;> simp

theorem operandOf_eq_ok_iff {c : StatedConstraint} {operand : NamedOperand} :
    operandOf c = .ok operand ↔
      c.operands = [operand] ∧ (c.hierarchies? = none ∨ c.qualifiers? = none) := by
  obtain ⟨relation, target, other?, type?, qualifiers?, hierarchies?⟩ := c
  cases other? <;> cases type? <;> cases qualifiers? <;> cases hierarchies? <;>
    simp [operandOf, StatedConstraint.operand?, StatedConstraint.operands]

theorem exists_resolveOperand_iff (h : NamedBy s p) (tops : Qualifiers) (operand : NamedOperand) :
    (∃ o, p.resolveOperand tops operand = .ok o) ↔ operand.Valid s := by
  cases operand with
  | target name =>
    rw [NamedOperand.Valid, ← exists_target_iff h]
    simp [resolveOperand, Except.bind_eq_ok_iff, pure, Except.pure]
  | type use =>
    rw [NamedOperand.Valid, ← NominalTypes.exists_resolve_iff h.declared]
    simp [resolveOperand, Except.bind_eq_ok_iff, Except.mapError_eq_ok_iff, pure, Except.pure]
  | qualifiers names =>
    rw [NamedOperand.Valid, ← h.declared.registers.exists_resolve_iff]
    simp [resolveOperand, Except.bind_eq_ok_iff, Except.mapError_eq_ok_iff, pure, Except.pure]

/-- A constraint is resolved just if it is valid. -/
theorem exists_resolve_iff (h : NamedBy s p)
    (hchains : ∀ chain ∈ s.qualifiers, chain.length < 4294967296) (c : StatedConstraint) :
    (∃ r, p.resolve c = .ok r) ↔ c.Valid s := by
  have htops := h.declared.registers.exists_resolveTops_iff hchains c.hierarchies?
  have hexists : (∃ r, p.resolve c = .ok r) ↔ (∃ t, p.target c.target = .ok t) ∧
      ∃ operand, operandOf c = .ok operand ∧
        ∃ tops, p.hierarchies.resolveTops c.hierarchies? = .ok tops ∧
          ∃ o, p.resolveOperand tops operand = .ok o := by
    simp only [resolve, Except.bind_eq_ok_iff, pure, Except.pure, Except.ok.injEq]
    grind
  rw [hexists, exists_target_iff h]
  simp only [exists_resolveOperand_iff h, exists_and_right, htops, operandOf_eq_ok_iff]
  constructor
  · rintro ⟨ht, operand, ⟨hone, hor⟩, hh, hvalid⟩
    refine ⟨ht, ⟨operand, hone, hvalid⟩, fun tops htops => ⟨?_, hh tops htops⟩⟩
    exact hor.resolve_left (by simp [htops])
  · rintro ⟨ht, ⟨operand, hone, hvalid⟩, hh⟩
    refine ⟨ht, operand, ⟨hone, ?_⟩, fun names hnames => (hh names hnames).2, hvalid⟩
    cases hh' : c.hierarchies? with
    | none => exact .inl rfl
    | some names => exact .inr (hh names hh').1

theorem NamedBy.add (h : NamedBy s p) {store : Store} {t : Target} {rel : Relation}
    {operand : Operand} (hadd : p.store.add p.qualifierOrder t rel operand = .ok store) :
    NamedBy s { p with store } := by
  refine ⟨h.declared, h.targets, fun u hu => ?_⟩
  rw [(Store.add_eq_ok hadd).2, Store.targets_write]
  exact h.store u hu

/-- All constraints are added, or the error names the first that is not valid. -/
theorem addAll_cases (h : NamedBy s p)
    (hchains : ∀ chain ∈ s.qualifiers, chain.length < 4294967296) (index : Nat)
    (cs : List StatedConstraint) :
    (∀ c ∈ cs, c.Valid s) ∧ (∃ p', p.addAll index cs = .ok p') ∨
    ∃ before c after e, cs = before ++ c :: after ∧ (∀ c' ∈ before, c'.Valid s) ∧ ¬c.Valid s ∧
      p.addAll index cs = .error (.invalid (.constraint (index + before.length) e)) := by
  induction cs generalizing p index with
  | nil => exact .inl ⟨nofun, p, rfl⟩
  | cons c cs ih =>
    rw [addAll]
    cases hresolve : p.resolve c with
    | error e =>
      have hinvalid : ¬c.Valid s := by
        rw [← exists_resolve_iff h hchains, hresolve]
        simp
      exact .inr ⟨[], c, cs, e, rfl, nofun, hinvalid, rfl⟩
    | ok r =>
      have hvalid : c.Valid s := (exists_resolve_iff h hchains c).1 ⟨r, hresolve⟩
      obtain ⟨t, operand⟩ := r
      have hadd := add_of_resolve h.store hresolve
      simp only [hadd]
      rcases ih (h.add hadd) (index + 1) with
        ⟨hall, hok⟩ | ⟨before, c', after, e, rfl, hb, hc', heq⟩
      · exact .inl ⟨List.forall_mem_cons.2 ⟨hvalid, hall⟩, hok⟩
      · refine .inr ⟨c :: before, c', after, e, rfl, List.forall_mem_cons.2 ⟨hvalid, hb⟩, hc', ?_⟩
        rw [heq, List.length_cons, Nat.add_right_comm, Nat.add_assoc]

/-! ## Declarations -/

theorem wellNamed_iff (htargets : s.targets.length < 4294967296) : s.WellNamed ↔
    (∃ hs, Hierarchies.registerAll ∅ 0 s.qualifiers = .ok hs) ∧
      (∃ d, s.types.foldlM NominalTypes.declareNamed ∅ = .ok d) ∧
      ∃ n, TargetNames.ofList s.targets = .ok n := by
  rw [Hierarchies.exists_registerAll_iff, (NominalTypes.declareAll_checks s.types).1,
    (TargetNames.ofList_checks htargets).1]
  constructor
  · intro h
    refine ⟨⟨h.hierarchies_le, h.hierarchies_ne_nil, h.qualifiers_nodup⟩,
      fun earlier decl later hl => ⟨h.types_ne_null decl (by simp [hl]), fun hmem => ?_,
        h.extends_earlier earlier decl later hl⟩, h.targets_nodup⟩
    have hnodup := h.types_nodup
    rw [hl, List.map_append, List.map_cons] at hnodup
    exact (List.nodup_append.1 hnodup).2.2 _ hmem _ (.head _) rfl
  · rintro ⟨⟨hle, hne, hnodup⟩, htypes, htargets⟩
    refine ⟨hle, hne, hnodup, fun decl hdecl => ?_, ?_, fun earlier decl later hl =>
      (htypes earlier decl later hl).2.2, htargets⟩
    · obtain ⟨earlier, later, hl⟩ := List.append_of_mem hdecl
      exact (htypes earlier decl later hl).1
    · rw [List.Nodup, List.pairwise_map, List.pairwise_iff_append_cons]
      exact fun earlier decl later hl a ha heq =>
        (htypes earlier decl later hl).2.1 (List.mem_map.2 ⟨a, ha, heq⟩)

/-- With valid declarations there is a problem to which the constraints are added. -/
theorem exists_namedBy (htargets : s.targets.length < 4294967296) (h : s.WellNamed) :
    ∃ p, NamedBy s p ∧ ofScenario s = p.addAll 0 s.constraints := by
  obtain ⟨⟨hs, hhs⟩, ⟨d, hd⟩, n, hn⟩ := (wellNamed_iff htargets).1 h
  refine ⟨⟨hs, d, n, .new 0 n.targets⟩, ⟨⟨Hierarchies.registers_checks.2 hs hhs,
    (NominalTypes.declareAll_checks s.types).2 d hd, ?_⟩,
    (TargetNames.ofList_checks htargets).2 n hn, ?_⟩, ?_⟩
  · rintro hnull
    obtain ⟨decl, hdecl, heq⟩ := List.mem_map.1 hnull
    exact h.types_ne_null decl hdecl heq
  · intro t ht
    rw [← Store.isSome_record?, Store.record?_new, if_pos ht]
    rfl
  · unfold ofScenario
    rw [hhs, hd, hn]
    rfl

theorem registerAll_ne_constraint {hs : Hierarchies} {start : Nat} {chains : List (List String)}
    {index : Nat} {e : ConstraintError} :
    hs.registerAll start chains ≠ .error (.constraint index e) := by
  induction chains generalizing hs start with
  | nil => simp [Hierarchies.registerAll]
  | cons names rest ih =>
    rw [Hierarchies.registerAll]
    split
    · exact ih
    · simp

theorem declareAll_ne_constraint {d : NominalTypes} {types : List TypeDeclaration} {index : Nat}
    {e : ConstraintError} :
    types.foldlM NominalTypes.declareNamed d ≠ .error (.constraint index e) := by
  induction types generalizing d with
  | nil => simp [pure, Except.pure]
  | cons decl rest ih =>
    rw [List.foldlM_cons]
    cases hdecl : d.declareNamed decl with
    | ok d' => exact ih
    | error e' =>
      unfold NominalTypes.declareNamed at hdecl
      split at hdecl
      · cases hdecl
        simp [bind, Except.bind]
      · cases hdeclare : d.declare decl.name decl.super? with
        | ok d' => simp [hdeclare, Except.mapError] at hdecl
        | error e'' =>
          rw [hdeclare] at hdecl
          cases hdecl
          simp [bind, Except.bind]

/-- Where declarations are not valid, the error is not about a constraint. -/
theorem exists_error_of_not_wellNamed (htargets : s.targets.length < 4294967296)
    (h : ¬s.WellNamed) :
    ∃ e, ofScenario s = .error (.invalid e) ∧ ∀ index ce, e ≠ .constraint index ce := by
  rw [wellNamed_iff htargets] at h
  unfold ofScenario
  cases hhs : Hierarchies.registerAll ∅ 0 s.qualifiers with
  | error e => exact ⟨e, rfl, fun _ _ he => registerAll_ne_constraint (he ▸ hhs)⟩
  | ok hs =>
    cases hd : s.types.foldlM NominalTypes.declareNamed ∅ with
    | error e => exact ⟨e, rfl, fun _ _ he => declareAll_ne_constraint (he ▸ hd)⟩
    | ok d =>
      cases hn : TargetNames.ofList s.targets with
      | error e => exact ⟨.targetName e, rfl, nofun⟩
      | ok n => exact absurd ⟨⟨hs, hhs⟩, ⟨d, hd⟩, n, hn⟩ h

end Problem

/-! ## Runs -/

namespace Scenario

variable {s : Scenario}

/-- A run succeeds, or stops at a constraint, or at what comes before the constraints. -/
theorem run_cases (strategies : List BuiltIn) (htargets : s.targets.length < 4294967296)
    (hchains : ∀ chain ∈ s.qualifiers, chain.length < 4294967296) :
    (s.Valid ∧ ∃ report, s.run strategies = .ok report) ∨
    (s.WellNamed ∧ ∃ before c after e, s.constraints = before ++ c :: after ∧
      (∀ c' ∈ before, c'.Valid s) ∧ ¬c.Valid s ∧
      s.run strategies = .error (.invalid (.constraint before.length e))) ∨
    (¬s.WellNamed ∧ ∃ e, s.run strategies = .error (.invalid e) ∧
      ∀ index ce, e ≠ .constraint index ce) := by
  have hrun : ∀ {e}, Problem.ofScenario s = .error e → s.run strategies = .error e := by
    intro e he
    rw [run, he]
    rfl
  by_cases hnamed : s.WellNamed
  · obtain ⟨p, hp, hof⟩ := Problem.exists_namedBy htargets hnamed
    rcases Problem.addAll_cases hp hchains 0 s.constraints with
      ⟨hall, p', hok⟩ | ⟨before, c, after, e, hsplit, hbefore, hc, herror⟩
    · exact .inl ⟨⟨hnamed, hall⟩, exists_run (hof.trans hok) strategies⟩
    · rw [Nat.zero_add] at herror
      exact .inr (.inl ⟨hnamed, before, c, after, e, hsplit, hbefore, hc,
        hrun (hof.trans herror)⟩)
  · obtain ⟨e, he, hne⟩ := Problem.exists_error_of_not_wellNamed htargets hnamed
    exact .inr (.inr ⟨hnamed, e, hrun he, hne⟩)

/-- A scenario is run just if it is valid, whatever the strategies. If its declarations are valid
    but its constraints are not, the error names the first constraint that is not valid. -/
theorem run_iff_valid (s : Scenario) (strategies : List BuiltIn)
    (htargets : s.targets.length < 4294967296)
    (hchains : ∀ chain ∈ s.qualifiers, chain.length < 4294967296) :
    ((∃ report, s.run strategies = .ok report) ↔ s.Valid) ∧
    ∀ index, (∃ e : ConstraintError,
        s.run strategies = .error (.invalid (.constraint index e)) ∧
        (ScenarioError.constraint index e).message =
          "invalid constraint #" ++ toString index ++ ": " ++ e.message) ↔
      s.WellNamed ∧ (∃ c, s.constraints[index]? = some c ∧ ¬c.Valid s) ∧
        ∀ c ∈ s.constraints.take index, c.Valid s := by
  rcases run_cases strategies htargets hchains with
    ⟨hvalid, report, hok⟩ | ⟨hnamed, before, c, after, e, hsplit, hbefore, hc, herror⟩ |
      ⟨hnamed, e, herror, hne⟩
  · refine ⟨⟨fun _ => hvalid, fun _ => ⟨report, hok⟩⟩, fun index => ⟨?_, ?_⟩⟩
    · rintro ⟨e, he, -⟩
      rw [hok] at he
      cases he
    · rintro ⟨-, ⟨c, hc, hinvalid⟩, -⟩
      exact absurd (hvalid.constraints c (List.mem_of_getElem? hc)) hinvalid
  · have hinvalid : ¬s.Valid := fun hvalid => hc (hvalid.constraints c (by simp [hsplit]))
    simp only [herror, reduceCtorEq, exists_false, hinvalid, hnamed, true_and,
      List.first_not_iff hsplit hbefore hc]
    refine fun index => ⟨?_, ?_⟩
    · rintro ⟨e', he', -⟩
      cases he'
      rfl
    · rintro rfl
      exact ⟨e, rfl, rfl⟩
  · have hinvalid : ¬s.Valid := fun hvalid => hnamed hvalid.toWellNamed
    simp only [herror, reduceCtorEq, exists_false, hinvalid, hnamed, false_and, iff_false, true_and]
    rintro index ⟨e', he', -⟩
    cases he'
    exact hne index e' rfl

/-- A list of strings that stand in two hierarchies, and bare qualifiers on one side of it. -/
def taintedList (bare : List String) : Scenario where
  qualifiers := [["Nullable", "NonNull"], ["Tainted", "Untainted"]]
  types := [⟨"Collection", none⟩, ⟨"List", some "Collection"⟩, ⟨"String", none⟩]
  targets := ["a", "b"]
  constraints := [
    ⟨.supertype, "a", none,
      some (.mk "List" [.mk "String" [] ["NonNull", "Untainted"]] ["Nullable"]), none,
      some ["Nullable"]⟩,
    ⟨.equal, "b", some "a", none, none, none⟩,
    ⟨.subtype, "b", none, none, some bare, none⟩]

theorem wellNamed_taintedList (bare : List String) : (taintedList bare).WellNamed where
  hierarchies_le := by simp [taintedList]
  hierarchies_ne_nil := by simp [taintedList]
  qualifiers_nodup := by simp [taintedList]
  types_ne_null := by simp [taintedList, nullName]
  types_nodup := by simp [taintedList]
  extends_earlier := by
    intro earlier decl later h super hsuper
    rcases earlier with _ | ⟨first, _ | ⟨second, _ | ⟨third, rest⟩⟩⟩ <;>
      simp [taintedList] at h <;> grind
  targets_nodup := by simp [taintedList]

theorem valid_constraints_taintedList (bare : List String) :
    ∀ c ∈ (taintedList bare).constraints.take 2, c.Valid (taintedList bare) := by
  have hstring : (TypeUse.mk "String" [] ["NonNull", "Untainted"]).Valid (taintedList bare) :=
    .named (by simp [taintedList]) (List.forall_mem_nil _) (by simp only [taintedList]; decide)
  have hlist : (TypeUse.mk "List" [.mk "String" [] ["NonNull", "Untainted"]] ["Nullable"]).Valid
      (taintedList bare) :=
    .named (by simp [taintedList]) (by simpa using hstring) (by simp only [taintedList]; decide)
  simp only [taintedList, List.take, List.forall_mem_cons]
  refine ⟨⟨by simp, ⟨_, rfl, hlist⟩, ?_⟩, ⟨by simp, ⟨_, rfl, ?_⟩, ?_⟩, List.forall_mem_nil _⟩
  · rintro tops htops
    cases htops
    simp
  · simp [NamedOperand.Valid]
  · rintro tops htops
    cases htops

theorem valid_bare_taintedList {bare : List String} :
    StatedConstraint.Valid (taintedList bare) ⟨.subtype, "b", none, none, some bare, none⟩ ↔
      KnownApart [["Nullable", "NonNull"], ["Tainted", "Untainted"]] bare := by
  constructor
  · rintro ⟨-, ⟨operand, hone, hoperand⟩, -⟩
    obtain rfl : .qualifiers bare = operand := by simpa [StatedConstraint.operands] using hone
    exact hoperand
  · intro h
    exact ⟨by simp [taintedList], ⟨.qualifiers bare, rfl, h⟩, nofun⟩

/-- It is run with qualifiers of two hierarchies, and refused at its last constraint with two
    qualifiers of one. -/
theorem run_iff_valid_taintedList :
    (∃ report, (taintedList ["NonNull", "Tainted"]).run BuiltIn.all = .ok report) ∧
    ∃ e : ConstraintError, (taintedList ["NonNull", "Nullable"]).run BuiltIn.all =
      .error (.invalid (.constraint 2 e)) := by
  constructor
  · refine (run_iff_valid _ BuiltIn.all (by simp [taintedList]) (by simp [taintedList])).1.2
      ⟨wellNamed_taintedList _, fun c hc => ?_⟩
    rcases List.mem_append.1 (List.take_append_drop 2 (taintedList _).constraints ▸ hc) with hc | hc
    · exact valid_constraints_taintedList _ c hc
    · obtain rfl := List.mem_singleton.1 hc
      exact valid_bare_taintedList.2 (by decide)
  · have hlast : ¬StatedConstraint.Valid (taintedList ["NonNull", "Nullable"])
        ⟨.subtype, "b", none, none, some ["NonNull", "Nullable"], none⟩ :=
      fun h => absurd (valid_bare_taintedList.1 h) (by decide)
    obtain ⟨e, he, -⟩ := ((run_iff_valid _ BuiltIn.all (by simp [taintedList])
      (by simp [taintedList])).2 2).2
        ⟨wellNamed_taintedList _, ⟨_, rfl, hlast⟩, valid_constraints_taintedList _⟩
    exact ⟨e, he⟩

end Scenario

end QualifiedInference
