-- SUMMARY: The agreement of the parts of a report with one another and with its JSON.
import Mathlib.Data.List.Nodup
import QualifiedInference.Proofs.Accumulation
import QualifiedInference.Proofs.Inference
import QualifiedInference.Proofs.WellFormed.Report
/-!
# What a report says three times

The entries of a report, its list of unresolved targets and its JSON object are read off an outcome
separately. They agree since every target has one name and every name one target
(`TargetNames.id?_name`), the targets of the store are those of the scenario in its order
(`Problem.Declares`), and no alias of an outcome points to a target with a type.
-/

namespace QualifiedInference

/-! ## Names and targets -/

namespace TargetNames

theorem names_declare {n n' : TargetNames} {name : String} (h : n.declare name = .ok n') :
    n'.names = n.names ++ [name] := by
  unfold declare at h
  split at h
  · split at h
    · cases h
    · cases h; rfl
  · cases h

theorem names_ofList {names : List String} {n : TargetNames} (h : ofList names = .ok n) :
    n.names = names := by
  suffices hfold : ∀ (names : List String) (n' : TargetNames), names.foldlM declare n' = .ok n →
      n.names = n'.names ++ names from hfold names ∅ h
  intro names
  induction names with
  | nil =>
    intro n' h
    cases h
    simp
  | cons name names ih =>
    intro n' h
    obtain ⟨n'', hdeclare, h⟩ := Except.bind_eq_ok_iff.1 h
    simp only [ih n'' h, names_declare hdeclare, List.append_assoc, List.singleton_append]

variable (n : TargetNames)

/-- The targets have the names, in order. -/
theorem map_name_targets : n.targets.map n.name = n.names := by
  apply List.ext_getElem (by simp [targets])
  intro i hi hi'
  simp only [targets, List.map_map, List.getElem_map, List.getElem_range, Function.comp_apply,
    name, n.name?_ofNat hi', Option.getD_some]

theorem nodup_targets : n.targets.Nodup :=
  List.Nodup.of_map n.name (n.map_name_targets ▸ n.nodup)

variable {n}

/-- A name leads back to its target. -/
theorem id?_name {t : Target} (ht : t ∈ n.targets) : n.id? (n.name t) = some t := by
  obtain ⟨i, hi, rfl⟩ := List.mem_map.1 ht
  have hlt := List.mem_range.1 hi
  have hfirst : n.names.idxOf? n.names[i] = some i := by
    refine List.idxOf?_eq_some_iff.2 ⟨hlt, rfl, fun j hj heq => ?_⟩
    exact Nat.ne_of_lt hj ((n.nodup.getElem_inj_iff).1 heq)
  simp only [id?, name, n.name?_ofNat hlt, Option.getD_some, hfirst, Option.map_some]

end TargetNames

/-! ## Declared targets -/

/-- The targets of the problem are those of the scenario, in its order. -/
structure Problem.Declares (p : Problem) (s : Scenario) : Prop where
  names : p.names.names = s.targets
  store : p.store.targets = p.names.targets

theorem Problem.Declares.addAll {p p' : Problem} {s : Scenario} (h : p.Declares s) {index : Nat}
    {constraints : List StatedConstraint} (hall : p.addAll index constraints = .ok p') :
    p'.Declares s := by
  induction constraints generalizing p index with
  | nil =>
    cases hall
    exact h
  | cons c rest ih =>
    unfold Problem.addAll at hall
    split at hall
    · cases hall
    · split at hall
      · cases hall
      · next store hadd =>
        have hstore : store.targets = p.names.targets := by
          rw [(Store.add_eq_ok hadd).2, Store.targets_write]
          exact h.store
        have hdeclares : Declares { p with store } s := ⟨h.names, hstore⟩
        exact ih hdeclares hall

theorem Problem.declares_ofScenario {p : Problem} {s : Scenario}
    (h : Problem.ofScenario s = .ok p) : p.Declares s := by
  obtain ⟨hierarchies, -, h⟩ := Except.bind_eq_ok_iff.1 h
  obtain ⟨types, -, h⟩ := Except.bind_eq_ok_iff.1 h
  obtain ⟨names, hnames, h⟩ := Except.bind_eq_ok_iff.1 h
  have hstore : (Store.new 0 names.targets).targets = names.targets :=
    (Store.targets_new 0 _).trans (List.eraseDups_of_nodup names.nodup_targets)
  have hempty : Declares ⟨hierarchies, types, names, .new 0 names.targets⟩ s :=
    ⟨TargetNames.names_ofList (Except.mapError_eq_ok_iff.1 hnames), hstore⟩
  exact hempty.addAll h

/-! ## Reports on outcomes -/

namespace Report

variable {o : Outcome} {n : TargetNames} {hs : Hierarchies} {name : String} {found : Finding}

theorem names_entries (o : Outcome) (n : TargetNames) (hs : Hierarchies) :
    (ofOutcome o n hs).entries.map Prod.fst = n.names := by
  simp only [ofOutcome, List.map_map, ← n.map_name_targets]
  rfl

theorem mem_entries : (name, found) ∈ (ofOutcome o n hs).entries ↔
    ∃ t ∈ n.targets, n.name t = name ∧ finding n hs (o.answers.get? t) = found := by
  simp only [ofOutcome, List.mem_map, Prod.mk.injEq]

/-- The unresolved targets in the order of the names. -/
theorem unresolved_eq (h : o.remaining = n.targets.filter fun t => !o.answers.isFinal t) :
    (ofOutcome o n hs).unresolved =
      n.names.filter fun name => !(n.id? name).any o.answers.isFinal := by
  have hcongr : ∀ t ∈ n.targets, (!(n.id? (n.name t)).any o.answers.isFinal) =
      !o.answers.isFinal t := fun t ht => by rw [TargetNames.id?_name ht, Option.any_some]
  simp only [ofOutcome, h, ← n.map_name_targets, List.filter_map]
  exact congrArg (List.map n.name) (List.filter_congr fun t ht => (hcongr t ht).symm)

theorem mem_unresolved {t : Target} (ht : t ∈ o.remaining) :
    n.name t ∈ (ofOutcome o n hs).unresolved :=
  List.mem_map_of_mem ht

theorem complete_iff : (ofOutcome o n hs).complete ↔ (ofOutcome o n hs).unresolved = [] := by
  simp only [ofOutcome, Outcome.complete, List.isEmpty_iff, List.map_eq_nil_iff]

/-- Where the entries have different names, no member of the JSON object is written over. -/
theorem toJson_of_nodup {r : Report} (h : (r.entries.map Prod.fst).Nodup) : r.toJson =
    .object [
      ("complete", .bool r.complete),
      ("strategies", .strings r.ran),
      ("targets", .object (r.entries.map fun e => (e.1, e.2.toJson))),
      ("unresolved", .strings r.unresolved)] := by
  have hkeys : (r.entries.map fun e => (e.1, e.2.toJson)).map Prod.fst =
      r.entries.map Prod.fst := by
    simp only [List.map_map, Function.comp_def]
  rw [toJson, OrderedMap.entries_ofList (hkeys ▸ h)]

end Report

/-- The report of a run is on an outcome that leaves the targets without a final type, and whose
    aliases point to other targets without a type. -/
theorem Scenario.outcome_of_run {s : Scenario} {strategies : List BuiltIn} {report : Report}
    (h : s.run strategies = .ok report) :
    ∃ p o, Problem.ofScenario s = .ok p ∧ p.Declares s ∧ p.infer strategies = .ok o ∧
      report = .ofOutcome o p.names p.hierarchies ∧
      o.remaining = p.names.targets.filter (fun t => !o.answers.isFinal t) ∧
      ∀ t pointee extra, o.answers.get? t = some (.alias pointee extra) →
        pointee ∈ p.names.targets ∧ pointee ≠ t ∧ o.answers.typeOf? pointee = none := by
  obtain ⟨p, hp, h⟩ := Except.bind_eq_ok_iff.1 h
  obtain ⟨o, ho, h⟩ := Except.bind_eq_ok_iff.1 (Except.mapError_eq_ok_iff.1 h)
  have hdeclares := Problem.declares_ofScenario hp
  have hkeeps : ∀ strategy ∈ strategies.map (BuiltIn.strategy p.typeOrder p.qualifierOrder),
      strategy.Keeps p.store (Ty.WellFormed p.types p.hierarchies)
        (Qualifiers.WellFormed p.hierarchies) := by
    intro strategy hstrategy
    obtain ⟨b, -, rfl⟩ := List.mem_map.1 hstrategy
    exact b.keeps_wellFormed (Problem.wellFormed_ofScenario hp).records
  obtain ⟨o', ho', hwithin, hcollapsed, hremaining⟩ :=
    infer_within (Ty.laysOver_wellFormed p.types p.hierarchies) hkeeps
  obtain rfl : o = o' := Except.ok.inj (ho.symm.trans ho')
  rw [hdeclares.store] at hremaining hwithin
  refine ⟨p, o, hp, hdeclares, ho, (Except.ok.inj h).symm, hremaining, fun t pointee extra ht => ?_⟩
  obtain ⟨hpointee, hne, -⟩ := hwithin.aliases ht
  exact ⟨hpointee, hne, hcollapsed t pointee extra ht⟩

/-- The views that a report gives of the targets of a scenario agree with each other. -/
theorem Scenario.report_agrees {s : Scenario} {strategies : List BuiltIn} {report : Report}
    (h : s.run strategies = .ok report) :
    (report.entries.map Prod.fst = s.targets ∧ s.targets.Nodup) ∧
    (∃ p o, Problem.ofScenario s = .ok p ∧ p.infer strategies = .ok o ∧
      report = .ofOutcome o p.names p.hierarchies ∧
      report.unresolved = s.targets.filter fun name =>
        !(p.names.id? name).any o.answers.isFinal) ∧
    (∀ name, (name, .unresolved) ∈ report.entries → name ∈ report.unresolved) ∧
    (∀ name target qs, (name, .alias target qs) ∈ report.entries → name ∈ report.unresolved ∧
      target ∈ s.targets ∧ target ≠ name ∧ target ∈ report.unresolved) ∧
    (report.complete ↔ report.unresolved = []) ∧
    report.toJson = .object [
      ("complete", .bool report.complete),
      ("strategies", .strings report.ran),
      ("targets", .object (report.entries.map fun e => (e.1, e.2.toJson))),
      ("unresolved", .strings report.unresolved)] := by
  obtain ⟨p, o, hp, hdeclares, ho, rfl, hremaining, haliases⟩ := outcome_of_run h
  have hnames : s.targets = p.names.names := hdeclares.names.symm
  have hnodup : s.targets.Nodup := hnames ▸ p.names.nodup
  have hentries := Report.names_entries o p.names p.hierarchies
  have hunresolved : ∀ t ∈ p.names.targets, o.answers.typeOf? t = none →
      p.names.name t ∈ (Report.ofOutcome o p.names p.hierarchies).unresolved := by
    intro t ht hnone
    apply Report.mem_unresolved
    rw [hremaining]
    exact List.mem_filter.2 ⟨ht, by simp [Answers.isFinal, hnone]⟩
  have hname : ∀ t ∈ p.names.targets, p.names.name t ∈ s.targets := by
    intro t ht
    rw [hnames, ← p.names.map_name_targets]
    exact List.mem_map_of_mem ht
  refine ⟨⟨hentries.trans hdeclares.names, hnodup⟩, ⟨p, o, hp, ho, rfl, ?_⟩, ?_, ?_,
    Report.complete_iff, Report.toJson_of_nodup (hentries ▸ p.names.nodup)⟩
  · rw [hnames]
    exact Report.unresolved_eq hremaining
  · intro name hentry
    -- A finding tells the kind of the answer it is about.
    obtain ⟨t, ht, rfl, hfinding⟩ := Report.mem_entries.1 hentry
    cases ha : o.answers.get? t with
    | none => exact hunresolved t ht (by simp [Answers.typeOf?, ha])
    | some a => cases a <;> simp [Report.finding, ha] at hfinding
  · intro name target qs hentry
    obtain ⟨t, ht, rfl, hfinding⟩ := Report.mem_entries.1 hentry
    cases ha : o.answers.get? t with
    | none => simp [Report.finding, ha] at hfinding
    | some a =>
      cases a with
      | type ty => simp [Report.finding, ha] at hfinding
      | «alias» pointee extra =>
        obtain ⟨hpointee, hne, hnone⟩ := haliases t pointee extra ha
        simp only [Report.finding, ha, Finding.alias.injEq] at hfinding
        obtain ⟨rfl, -⟩ := hfinding
        refine ⟨hunresolved t ht (Answers.typeOf?_of_get?_alias ha), hname pointee hpointee,
          fun heq => hne ?_, hunresolved pointee hpointee hnone⟩
        have hids := congrArg p.names.id? heq
        simpa [TargetNames.id?_name hpointee, TargetNames.id?_name ht] using hids

/-- The target `a` equals `b`, and that is all that is known. -/
def pairScenario : Scenario where
  qualifiers := []
  types := []
  targets := ["a", "b"]
  constraints := [⟨.equal, "a", some "b", none, none, none⟩]

def pairReport : Report where
  entries := [("a", .alias "b" []), ("b", .unresolved)]
  unresolved := ["a", "b"]
  ran := ["equalities"]
  complete := false

theorem run_pairScenario : pairScenario.run [.equalities] = .ok pairReport := by
  let store : Store := (Store.new 0 [⟨0⟩, ⟨1⟩]).write ⟨0⟩ fun r => r.relateTarget .equal ⟨1⟩ ∅
  let answers : Answers := .ofList [(⟨0⟩, .alias ⟨1⟩ ∅)]
  have hproblem : Problem.ofScenario pairScenario = .ok ⟨∅, ∅, listNames, store⟩ := rfl
  have hinfer := infer_equalities_of_idle (s := store) (r := answers)
    (Equalities.spread_of_idle (by decide +kernel)) (TargetMap.ext (by decide +kernel))
    (TargetMap.ext (by decide +kernel)) (Answers.collapsed_of_keys (by decide +kernel))
    (by decide +kernel)
  have houtcome : Problem.infer ⟨∅, ∅, listNames, store⟩ [.equalities] = .ok _ := hinfer
  rw [Scenario.run, hproblem]
  simp only [bind, Except.bind, Problem.report, houtcome]
  rfl

theorem Scenario.report_agrees_pair : pairScenario.run [.equalities] = .ok pairReport ∧
    pairReport.entries.map Prod.fst = ["a", "b"] ∧
    ("a" ∈ pairReport.unresolved ∧ "b" ∈ pairScenario.targets ∧ "b" ≠ "a" ∧
      "b" ∈ pairReport.unresolved) ∧
    (pairReport.complete ↔ pairReport.unresolved = []) ∧
    pairReport.toJson = .object [
      ("complete", .bool false),
      ("strategies", .strings ["equalities"]),
      ("targets", .object [
        ("a", .object [("alias", .string "b"), ("qualifiers", .strings [])]),
        ("b", .null)]),
      ("unresolved", .strings ["a", "b"])] := by
  obtain ⟨hentries, -, -, halias, hcomplete, hjson⟩ := report_agrees run_pairScenario
  exact ⟨run_pairScenario, hentries.1, halias "a" "b" [] (.head _), hcomplete, hjson⟩

end QualifiedInference
