-- SUMMARY: Runs answer with well-formed types, and reports have a name for all that they show.
import QualifiedInference.Proofs.WellFormed.Problem
import QualifiedInference.Run
/-!
# Well-formed reports

A run answers with well-formed types, and its aliases have well-formed qualifiers. So the report has
a name for all that it shows: it is the same whatever stands in for a qualifier that is not
registered and for a target without a name.
-/

namespace QualifiedInference

/-! ## Reports with other stand-ins -/

/-- The registered name of a qualifier, or what `standIn` gives if it has none. -/
def Hierarchies.nameOr (hs : Hierarchies) (standIn : Qualifier → String) (q : Qualifier) : String :=
  (hs.name? q).getD (standIn q)

/-- The name of a target, or `standIn` if it has none. -/
def TargetNames.nameOr (n : TargetNames) (standIn : String) (t : Target) : String :=
  (n.name? t).getD standIn

mutual

/-- A type in words, with qualifiers named by `nameOf`. -/
def Ty.describeWith (nameOf : Qualifier → String) : Ty → String
  | .null qs => annotations (qs.toList.map nameOf) ++ "null"
  | .named name args qs =>
    annotations (qs.toList.map nameOf) ++ name ++
      if args.isEmpty then "" else "<" ++ ", ".intercalate (Ty.describeAllWith nameOf args) ++ ">"

def Ty.describeAllWith (nameOf : Qualifier → String) : List Ty → List String
  | [] => []
  | ty :: rest => ty.describeWith nameOf :: Ty.describeAllWith nameOf rest

end

namespace Report

def findingWith (targetOf : Target → String) (nameOf : Qualifier → String) :
    Option Answer → Finding
  | none => .unresolved
  | some (.type ty) => .type (ty.describeWith nameOf)
  | some (.alias pointee extra) => .alias (targetOf pointee) (extra.toList.map nameOf)

/-- The report on an outcome, with targets named by `targetOf` and qualifiers by `nameOf`. -/
def ofOutcomeWith (targetOf : Target → String) (nameOf : Qualifier → String) (o : Outcome)
    (targets : List Target) : Report where
  entries := targets.map fun t => (targetOf t, findingWith targetOf nameOf (o.answers.get? t))
  unresolved := o.remaining.map targetOf
  ran := o.ran
  complete := o.complete

end Report

mutual

theorem Ty.describe_eq (hs : Hierarchies) : ∀ ty : Ty, ty.describe hs = ty.describeWith hs.nameOf
  | .null qs => by rw [Ty.describe, Ty.describeWith, Qualifiers.names]
  | .named name args qs => by
    rw [Ty.describe, Ty.describeWith, Qualifiers.names, Ty.describeAll_eq hs args]

theorem Ty.describeAll_eq (hs : Hierarchies) : ∀ tys : List Ty,
    Ty.describeAll hs tys = Ty.describeAllWith hs.nameOf tys
  | [] => rfl
  | ty :: rest => by
    rw [Ty.describeAll, Ty.describeAllWith, Ty.describe_eq hs ty, Ty.describeAll_eq hs rest]

end

/-- A report names unregistered qualifiers by their numbers and other targets as unknown. -/
theorem Report.ofOutcome_eq (o : Outcome) (names : TargetNames) (hs : Hierarchies) :
    Report.ofOutcome o names hs =
      .ofOutcomeWith (names.nameOr "<unknown>") (hs.nameOr Qualifier.describe) o names.targets := by
  have hfinding : ∀ a?, finding names hs a? =
      findingWith (names.nameOr "<unknown>") (hs.nameOr Qualifier.describe) a? := by
    rintro (_ | ty | ⟨pointee, extra⟩)
    · rfl
    · exact congrArg Finding.type (Ty.describe_eq hs ty)
    · rfl
  simp only [ofOutcome, ofOutcomeWith, hfinding]
  rfl

/-! ## Names for all that is shown -/

theorem TargetNames.name?_ofNat (n : TargetNames) {i : Nat} (hi : i < n.names.length) :
    n.name? ⟨.ofNat i⟩ = some n.names[i] := by
  have hid : (UInt32.ofNat i).toNat = i := Nat.mod_eq_of_lt (Nat.lt_of_lt_of_le hi n.length_le)
  simp only [name?, hid, List.getElem?_eq_getElem hi]

section Names

variable {d : NominalTypes} {hs : Hierarchies} {names : TargetNames} {o : Outcome}
  (standIn standIn' : Qualifier → String) (unknown unknown' : String)

theorem Qualifiers.WellFormed.map_nameOr {qs : Qualifiers} (h : qs.WellFormed hs) :
    qs.toList.map (hs.nameOr standIn) = qs.toList.map (hs.nameOr standIn') := by
  apply List.map_congr_left
  intro q hq
  obtain ⟨name, hname⟩ := Option.isSome_iff_exists.1 (h.registered q hq)
  rw [Hierarchies.nameOr, Hierarchies.nameOr, hname]
  rfl

theorem Ty.describeAllWith_eq_map (nameOf : Qualifier → String) (tys : List Ty) :
    Ty.describeAllWith nameOf tys = tys.map (Ty.describeWith nameOf) := by
  induction tys with
  | nil => rfl
  | cons ty rest ih => rw [Ty.describeAllWith, ih, List.map_cons]

theorem Ty.WellFormed.describeWith_nameOr {ty : Ty} (h : ty.WellFormed d hs) :
    ty.describeWith (hs.nameOr standIn) = ty.describeWith (hs.nameOr standIn') := by
  induction h with
  | null hqs =>
    rw [Ty.describeWith, Ty.describeWith, hqs.map_nameOr standIn standIn']
  | named _ _ hqs ih =>
    rw [Ty.describeWith, Ty.describeWith, hqs.map_nameOr standIn standIn',
      Ty.describeAllWith_eq_map, Ty.describeAllWith_eq_map, List.map_congr_left ih]

theorem TargetNames.nameOr_eq {t : Target} (h : t ∈ names.targets) :
    names.nameOr unknown t = names.nameOr unknown' t := by
  obtain ⟨i, hi, rfl⟩ := List.mem_map.1 h
  simp only [nameOr, names.name?_ofNat (List.mem_range.1 hi), Option.getD_some]

/-- A report on well-formed answers about named targets shows no stand-in. -/
theorem Report.ofOutcomeWith_nameOr {ts : List Target} (hts : ∀ t ∈ ts, t ∈ names.targets)
    (hanswers : Answers.Within ts (Ty.WellFormed d hs) (Qualifiers.WellFormed hs) o.answers)
    (hremaining : ∀ t ∈ o.remaining, t ∈ ts) :
    ofOutcomeWith (names.nameOr unknown) (hs.nameOr standIn) o names.targets =
      ofOutcomeWith (names.nameOr unknown') (hs.nameOr standIn') o names.targets := by
  have hname : ∀ {t}, t ∈ names.targets → names.nameOr unknown t = names.nameOr unknown' t :=
    TargetNames.nameOr_eq unknown unknown'
  have hfinding : ∀ t, findingWith (names.nameOr unknown) (hs.nameOr standIn) (o.answers.get? t) =
      findingWith (names.nameOr unknown') (hs.nameOr standIn') (o.answers.get? t) := by
    intro t
    cases ha : o.answers.get? t with
    | none => rfl
    | some a =>
      cases a with
      | type ty =>
        exact congrArg Finding.type ((hanswers.types ha).describeWith_nameOr standIn standIn')
      | «alias» pointee extra =>
        obtain ⟨hp, -, hextra⟩ := hanswers.aliases ha
        simp only [findingWith, hname (hts pointee hp), hextra.map_nameOr standIn standIn']
  have hentries : names.targets.map (fun t => (names.nameOr unknown t,
        findingWith (names.nameOr unknown) (hs.nameOr standIn) (o.answers.get? t))) =
      names.targets.map fun t => (names.nameOr unknown' t,
        findingWith (names.nameOr unknown') (hs.nameOr standIn') (o.answers.get? t)) :=
    List.map_congr_left fun t ht => by rw [hname ht, hfinding t]
  have hunresolved : o.remaining.map (names.nameOr unknown) =
      o.remaining.map (names.nameOr unknown') :=
    List.map_congr_left fun t ht => hname (hts t (hremaining t ht))
  simp only [ofOutcomeWith, hentries, hunresolved]

end Names

/-! ## Runs -/

/-- No strategies are at fault on a scenario that names a problem. -/
theorem Scenario.exists_run {s : Scenario} {p : Problem} (h : Problem.ofScenario s = .ok p)
    (strategies : List BuiltIn) : ∃ report, s.run strategies = .ok report := by
  obtain ⟨out, hout, -⟩ := runStrategies_extends p.store
    (strategies.map (BuiltIn.strategy p.typeOrder p.qualifierOrder)) (∅, [])
  have hinfer : p.infer strategies = .ok _ := infer_of_runStrategies hout
  rw [Scenario.run, h]
  simp only [bind, Except.bind, Problem.report, hinfer]
  exact ⟨_, rfl⟩

/-- All types of an outcome are well formed, down to their last argument, and so are the qualifiers
    of its aliases. The report on it is the one in which anything else stands in for a qualifier
    that is not registered and for a target without a name. -/
theorem Scenario.run_wellFormed (s : Scenario) (strategies : List BuiltIn) (report : Report)
    (h : s.run strategies = .ok report) :
    ∃ p o, Problem.ofScenario s = .ok p ∧ p.infer strategies = .ok o ∧
      report = .ofOutcome o p.names p.hierarchies ∧
      (∀ t ty, o.answers.get? t = some (.type ty) → ty.WellFormed p.types p.hierarchies) ∧
      (∀ t pointee extra, o.answers.get? t = some (.alias pointee extra) →
        extra.WellFormed p.hierarchies) ∧
      ∀ (unknown : String) (standIn : Qualifier → String),
        report = .ofOutcomeWith (p.names.nameOr unknown) (p.hierarchies.nameOr standIn) o
          p.names.targets := by
  obtain ⟨p, hp, h⟩ := Except.bind_eq_ok_iff.1 h
  obtain ⟨o, ho, h⟩ := Except.bind_eq_ok_iff.1 (Except.mapError_eq_ok_iff.1 h)
  obtain rfl := Except.ok.inj h
  -- Each strategy keeps well-formedness, since the problem has well-formed records.
  have hwf := Problem.wellFormed_ofScenario hp
  have hkeeps : ∀ strategy ∈ strategies.map (BuiltIn.strategy p.typeOrder p.qualifierOrder),
      strategy.Keeps p.store (Ty.WellFormed p.types p.hierarchies)
        (Qualifiers.WellFormed p.hierarchies) := by
    intro strategy hstrategy
    obtain ⟨b, -, rfl⟩ := List.mem_map.1 hstrategy
    exact b.keeps_wellFormed hwf.records
  obtain ⟨o', ho', hwithin, -, hremaining⟩ :=
    infer_within (Ty.laysOver_wellFormed p.types p.hierarchies) hkeeps
  obtain rfl : o = o' := Except.ok.inj (ho.symm.trans ho')
  refine ⟨p, o, hp, ho, rfl, fun t ty => hwithin.types, fun t pointee extra ht =>
    (hwithin.aliases ht).2.2, fun unknown standIn => ?_⟩
  rw [Report.ofOutcome_eq]
  refine Report.ofOutcomeWith_nameOr _ standIn _ unknown hwf.targets hwithin fun t ht => ?_
  rw [hremaining] at ht
  exact (List.mem_filter.1 ht).1

/-! ## A list of strings -/

def listUse : TypeUse := .mk "List" [.mk "String" [] ["NonNull"]] ["Nullable"]

/-- The target `a` is a supertype of a list, and `b` equals `a`. -/
def listScenario : Scenario where
  qualifiers := [["Nullable", "NonNull"]]
  types := [⟨"List", none⟩, ⟨"String", none⟩]
  targets := ["a", "b"]
  constraints := [⟨.supertype, "a", none, some listUse, none, none⟩,
    ⟨.equal, "b", some "a", none, none, none⟩]

def nullness : Hierarchies := (Hierarchies.register ∅ ["Nullable", "NonNull"]).2

def listTypes : NominalTypes :=
  ⟨[("String", none), ("List", none)], by decide, nofun, by decide, nofun, trivial⟩

def listNames : TargetNames := ⟨["a", "b"], by decide, by decide⟩

-- Names are hashed, which does not compute here: the registrations are rewritten.
theorem register_nullness :
    Hierarchies.register ∅ ["Nullable", "NonNull"] = (.ok 0, nullness) := by
  have hroom : (0 : Nat) < UInt16.size := by decide
  have hok : (Hierarchies.register ∅ ["Nullable", "NonNull"]).1 = .ok 0 := by
    simp [Hierarchies.register, Hierarchies.firstRepeated?, EmptyCollection.emptyCollection, hroom]
  rw [nullness, ← hok]

theorem lookup?_nullness : nullness.lookup? "Nullable" = some ⟨0, 0⟩ ∧
    nullness.lookup? "NonNull" = some ⟨0, 1⟩ := by
  have hroom : (0 : Nat) < UInt16.size := by decide
  simp [nullness, Hierarchies.register, Hierarchies.firstRepeated?, Hierarchies.lookup?,
    Hierarchies.indexFrom, EmptyCollection.emptyCollection, hroom, Std.HashMap.getElem_insert]

theorem resolve_listUse : listTypes.resolve nullness listUse =
    .ok (.named "List" [.named "String" [] (.singleton ⟨0, 1⟩)] (.singleton ⟨0, 0⟩)) := by
  have htop : nullness.resolve ["Nullable"] = .ok (.singleton ⟨0, 0⟩) := by
    rw [Hierarchies.resolve, List.foldlM_cons, Hierarchies.addNamed, lookup?_nullness.1]
    rfl
  have hbottom : nullness.resolve ["NonNull"] = .ok (.singleton ⟨0, 1⟩) := by
    rw [Hierarchies.resolve, List.foldlM_cons, Hierarchies.addNamed, lookup?_nullness.2]
    rfl
  have harg : listTypes.resolve nullness (.mk "String" [] ["NonNull"]) =
      .ok (.named "String" [] (.singleton ⟨0, 1⟩)) := by
    rw [NominalTypes.resolve, hbottom]
    rfl
  rw [listUse, NominalTypes.resolve, htop, NominalTypes.resolveAll, harg]
  rfl

def listProblem (store : Store) : Problem := ⟨nullness, listTypes, listNames, store⟩

theorem exists_addAll_listProblem {s : Store} (hs : s.targets = listNames.targets)
    {c : StatedConstraint} {t : Target} {operand : Operand} (ht : t ∈ listNames.targets)
    (hc : (listProblem s).resolve c = .ok (t, operand)) (index : Nat)
    (rest : List StatedConstraint) :
    ∃ s' : Store, s'.targets = listNames.targets ∧
      (listProblem s).addAll index (c :: rest) = (listProblem s').addAll (index + 1) rest := by
  refine ⟨s.write t fun r => r.relate .chains c.relation operand,
    (s.targets_write t _).trans hs, ?_⟩
  have hcontains : s.contains t = true := Store.contains_iff.2 (hs ▸ ht)
  rw [Problem.addAll, hc]
  dsimp only [listProblem]
  rw [Store.add, if_pos hcontains]
  rfl

theorem exists_ofScenario_listScenario : ∃ p, Problem.ofScenario listScenario = .ok p := by
  let listTy : Ty := .named "List" [.named "String" [] (.singleton ⟨0, 1⟩)] (.singleton ⟨0, 0⟩)
  have hall : Problem.ofScenario listScenario =
      (listProblem (.new 0 listNames.targets)).addAll 0 listScenario.constraints := by
    have hhierarchies : Hierarchies.registerAll ∅ 0 listScenario.qualifiers = .ok nullness := by
      rw [listScenario, Hierarchies.registerAll, register_nullness]
      rfl
    unfold Problem.ofScenario
    rw [hhierarchies]
    rfl
  have htype : ∀ s, (listProblem s).resolve ⟨.supertype, "a", none, some listUse, none, none⟩ =
      .ok (⟨0⟩, .type listTy nullness.tops) := by
    intro s
    have hoperand : (listProblem s).resolveOperand nullness.tops (.type listUse) =
        .ok (.type listTy nullness.tops) := by
      have hresolve : (listProblem s).types.resolve (listProblem s).hierarchies listUse =
          .ok listTy := resolve_listUse
      rw [Problem.resolveOperand, hresolve]
      rfl
    exact congrArg (fun x => x.map fun operand => ((⟨0⟩ : Target), operand)) hoperand
  have htarget : ∀ s, (listProblem s).resolve ⟨.equal, "b", some "a", none, none, none⟩ =
      .ok (⟨1⟩, .target ⟨0⟩ nullness.tops) := fun _ => rfl
  obtain ⟨s, hs, h⟩ := exists_addAll_listProblem (s := .new 0 listNames.targets)
    (by decide +kernel) (by decide) (htype _) 0 [⟨.equal, "b", some "a", none, none, none⟩]
  obtain ⟨s', -, h'⟩ := exists_addAll_listProblem hs (by decide) (htarget s) 1 []
  exact ⟨listProblem s', hall.trans (h.trans h')⟩

theorem Scenario.run_wellFormed_list : ∃ report, listScenario.run BuiltIn.all = .ok report ∧
    ∃ p o, Problem.ofScenario listScenario = .ok p ∧ p.infer BuiltIn.all = .ok o ∧
      report = .ofOutcome o p.names p.hierarchies ∧
      (∀ t ty, o.answers.get? t = some (.type ty) → ty.WellFormed p.types p.hierarchies) ∧
      (∀ t pointee extra, o.answers.get? t = some (.alias pointee extra) →
        extra.WellFormed p.hierarchies) ∧
      ∀ (unknown : String) (standIn : Qualifier → String),
        report = .ofOutcomeWith (p.names.nameOr unknown) (p.hierarchies.nameOr standIn) o
          p.names.targets := by
  obtain ⟨p, hp⟩ := exists_ofScenario_listScenario
  obtain ⟨report, h⟩ := Scenario.exists_run hp BuiltIn.all
  exact ⟨report, h, run_wellFormed listScenario BuiltIn.all report h⟩

end QualifiedInference
