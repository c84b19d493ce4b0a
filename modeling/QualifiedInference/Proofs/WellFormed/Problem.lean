-- SUMMARY: Problems made of scenarios hold well-formed constraints on named targets.
import QualifiedInference.Problem
import QualifiedInference.Proofs.Base.Except
import QualifiedInference.Proofs.WellFormed.Types
/-!
# Well-formed problems

What a name of a scenario is resolved to is registered or declared, so a problem made of a scenario
has well-formed constraints only, on targets that have names.
-/

namespace QualifiedInference

/-! ## Registered hierarchies -/

namespace Hierarchies

/-- A chain is refused, which leaves the registry as it was, or it is taken into both tables. -/
theorem register_cases (hs : Hierarchies) (names : List String) :
    (∃ e, hs.register names = (.error e, hs)) ∧
        (names = [] ∨ ¬hs.count < 65536 ∨ firstRepeated? hs.index ∅ names ≠ none) ∨
      ∃ hs', hs.register names = (.ok (.ofNat hs.count), hs') ∧
        (names ≠ [] ∧ hs.count < 65536 ∧ firstRepeated? hs.index ∅ names = none) ∧
        hs'.chains = hs.chains.push names.toArray ∧
        hs'.index = indexFrom (.ofNat hs.count) 0 hs.index names := by
  unfold register
  split
  · next hempty => exact .inl ⟨⟨_, rfl⟩, .inl (List.isEmpty_iff.1 hempty)⟩
  · next hempty =>
    split
    · next room =>
      split
      · next hrepeated => exact .inl ⟨⟨_, rfl⟩, .inr (.inr (by simp [hrepeated]))⟩
      · next hnone =>
        exact .inr ⟨_, rfl, ⟨fun heq => hempty (List.isEmpty_iff.2 heq), room, hnone⟩, rfl, rfl⟩
    · next room => exact .inl ⟨⟨_, rfl⟩, .inr (.inl room)⟩

/-- A chain at the end takes no names from the others. -/
theorem name?_of_push {hs hs' : Hierarchies} {names : List String}
    (h : hs'.chains = hs.chains.push names.toArray) (q : Qualifier) :
    hs'.name? q = if q.hierarchy.toNat = hs.count then names[q.rank.toNat]? else hs.name? q := by
  rw [name?, h, Array.getElem?_push, count]
  split
  · rw [Option.bind_some, List.getElem?_toArray]
  · rfl

/-- What is known by a name is registered. -/
def Indexed (hs : Hierarchies) : Prop := ∀ name q, hs.lookup? name = some q → (hs.name? q).isSome

theorem getElem?_indexFrom {h : HierarchyId} {names : List String} {rank : Nat}
    {index : Std.HashMap String Qualifier} {name : String} {q : Qualifier}
    (hq : (indexFrom h rank index names)[name]? = some q) :
    index[name]? = some q ∨ ∃ i < names.length, q = ⟨h, .ofNat (rank + i)⟩ := by
  induction names generalizing rank index with
  | nil => exact .inl hq
  | cons first rest ih =>
    rcases ih hq with hold | ⟨i, hi, rfl⟩
    · rw [Std.HashMap.getElem?_insert] at hold
      split at hold
      · exact .inr ⟨0, Nat.zero_lt_succ _, (Option.some.inj hold).symm⟩
      · exact .inl hold
    · refine .inr ⟨i + 1, Nat.succ_lt_succ hi, ?_⟩
      rw [Nat.add_right_comm, Nat.add_assoc]

theorem Indexed.empty : Indexed ∅ := by
  intro name q h
  simp [lookup?, EmptyCollection.emptyCollection] at h

theorem Indexed.register {hs : Hierarchies} (h : hs.Indexed) (names : List String) :
    (hs.register names).2.Indexed := by
  rcases hs.register_cases names with ⟨⟨e, heq⟩, -⟩ | ⟨hs', heq, ⟨-, room, -⟩, hchains, hindex⟩
  · rw [heq]
    exact h
  · rw [heq]
    intro name q hq
    rw [lookup?, hindex] at hq
    rw [name?_of_push hchains]
    rcases getElem?_indexFrom hq with hold | ⟨i, hi, rfl⟩
    · -- An entry of an earlier chain is still there.
      have hsome := h name q hold
      rw [if_neg]
      · exact hsome
      · intro hlast
        simp [name?, hlast, count] at hsome
    · have hrank : (UInt32.ofNat (0 + i)).toNat < names.length :=
        Nat.lt_of_le_of_lt (Nat.mod_le ..) ((Nat.zero_add i).symm ▸ hi)
      have hid : (UInt16.ofNat hs.count).toNat = hs.count := Nat.mod_eq_of_lt room
      rw [if_pos hid, List.getElem?_eq_getElem hrank]
      rfl

theorem Indexed.registerAll {hs hs' : Hierarchies} (h : hs.Indexed) {index : Nat}
    {chains : List (List String)} (hall : hs.registerAll index chains = .ok hs') : hs'.Indexed := by
  induction chains generalizing hs index with
  | nil => cases hall; exact h
  | cons names rest ih =>
    have hregister := h.register names
    unfold Hierarchies.registerAll at hall
    split at hall
    · next heq =>
      simp only [heq] at hregister
      exact ih hregister hall
    · cases hall

variable {hs : Hierarchies} {qs qs' : Qualifiers}

theorem wellFormed_addNamed (h : hs.Indexed) (hqs : qs.WellFormed hs) {name : String}
    (hadd : hs.addNamed qs name = .ok qs') : qs'.WellFormed hs := by
  unfold addNamed at hadd
  split at hadd
  · cases hadd
  · next q hq =>
    split at hadd
    · cases hadd
    · next hnone =>
      cases hadd
      refine hqs.insert (h name q hq) ?_
      rwa [← Qualifiers.inHierarchy?_eq_none, ← Option.not_isSome_iff_eq_none]

theorem wellFormed_resolve (h : hs.Indexed) {names : List String}
    (hresolve : hs.resolve names = .ok qs) : qs.WellFormed hs :=
  Except.foldlM_induction (P := Qualifiers.WellFormed hs)
    (fun hqs hadd => wellFormed_addNamed h hqs hadd) .empty hresolve

end Hierarchies

/-! ## Uses of types -/

namespace NominalTypes

variable {d : NominalTypes} {hs : Hierarchies}

theorem resolve_eq_ok {name : String} {args : List TypeUse} {qualifiers : List String} {ty : Ty}
    (h : d.resolve hs (.mk name args qualifiers) = .ok ty) :
    ∃ qs, hs.resolve qualifiers = .ok qs ∧ (ty = .null qs ∨ d.isDeclared name = true ∧
      ∃ tys, d.resolveAll hs args = .ok tys ∧ ty = .named name tys qs) := by
  unfold resolve at h
  obtain ⟨qs, hqs, h⟩ := Except.bind_eq_ok_iff.1 h
  refine ⟨qs, Except.mapError_eq_ok_iff.1 hqs, ?_⟩
  by_cases hnull : name = nullName
  · simp only [if_pos hnull] at h
    cases hargs : args.isEmpty with
    | true =>
      simp [hargs, pure, Except.pure] at h
      exact .inl h.symm
    | false => simp [hargs, throw, throwThe, MonadExceptOf.throw, bind, Except.bind] at h
  · simp only [if_neg hnull] at h
    cases hdeclared : d.isDeclared name with
    | true =>
      simp only [hdeclared, Bool.not_true, Bool.false_eq_true, if_false] at h
      obtain ⟨tys, htys, hty⟩ := Except.bind_eq_ok_iff.1 h
      exact .inr ⟨rfl, tys, htys, (Except.ok.inj hty).symm⟩
    | false => simp [hdeclared, throw, throwThe, MonadExceptOf.throw, bind, Except.bind] at h

mutual

theorem wellFormed_resolve (h : hs.Indexed) : ∀ {use : TypeUse} {ty : Ty},
    d.resolve hs use = .ok ty → ty.WellFormed d hs
  | .mk name args qualifiers, ty, hresolve => by
    obtain ⟨qs, hqs, rfl | ⟨hdeclared, tys, htys, rfl⟩⟩ := resolve_eq_ok hresolve
    · exact .null (hs.wellFormed_resolve h hqs)
    · exact .named hdeclared (wellFormed_resolveAll h htys) (hs.wellFormed_resolve h hqs)

theorem wellFormed_resolveAll (h : hs.Indexed) : ∀ {uses : List TypeUse} {tys : List Ty},
    d.resolveAll hs uses = .ok tys → ∀ ty ∈ tys, ty.WellFormed d hs
  | [], tys, hresolve => by
    cases hresolve
    exact nofun
  | use :: rest, tys, hresolve => by
    obtain ⟨ty, hty, hresolve⟩ := Except.bind_eq_ok_iff.1 hresolve
    obtain ⟨tys', htys', hresolve⟩ := Except.bind_eq_ok_iff.1 hresolve
    cases hresolve
    simp only [List.forall_mem_cons]
    exact ⟨wellFormed_resolve h hty, wellFormed_resolveAll h htys'⟩

end

end NominalTypes

/-! ## Constraints -/

/-- The type or the bare qualifiers of the operand are well formed. -/
inductive Operand.WellFormed (d : NominalTypes) (hs : Hierarchies) : Operand → Prop
  | target (other : Target) (tops : Qualifiers) : WellFormed d hs (.target other tops)
  | type {ty : Ty} (tops : Qualifiers) : ty.WellFormed d hs → WellFormed d hs (.type ty tops)
  | qualifiers {qs : Qualifiers} : qs.WellFormed hs → WellFormed d hs (.qualifiers qs)

namespace Record

variable {d : NominalTypes} {hs : Hierarchies} {r : Record}

theorem WellFormed.new (t : Target) : (Record.new t).WellFormed d hs where
  types rel ty hty := by
    have hnil : (Record.new t).typesIn rel = ∅ := by cases rel <;> rfl
    rw [hnil] at hty
    cases hty
  bare := .new _ t

theorem mem_typesIn_relateType {rel rel' : Relation} {ty ty' : Ty} {tops : Qualifiers}
    (h : ty' ∈ (r.relateType rel ty tops).typesIn rel') : ty' = ty ∨ ty' ∈ r.typesIn rel' := by
  rw [OrderedMap.mem_def, keys_typesIn_relateType] at h
  split at h
  · exact (List.mem_append.1 h).symm.imp_left List.mem_singleton.1
  · exact .inr h

theorem WellFormed.relate (h : r.WellFormed d hs) (rel : Relation) {operand : Operand}
    (hoperand : operand.WellFormed d hs) : (r.relate .chains rel operand).WellFormed d hs := by
  constructor
  · intro rel' ty hty
    cases hoperand with
    | target other tops =>
      have hsame : (r.relateTarget rel other tops).typesIn rel' = r.typesIn rel' := by
        cases rel <;> cases rel' <;> rfl
      exact h.types rel' ty (hsame ▸ hty)
    | type tops hwf =>
      rcases mem_typesIn_relateType hty with rfl | hty
      · exact hwf
      · exact h.types rel' ty hty
    | @qualifiers qs hwf =>
      have hsame : (r.relateQualifiers rel .chains qs).typesIn rel' = r.typesIn rel' := by
        cases rel <;> cases rel' <;> rfl
      exact h.types rel' ty (hsame ▸ hty)
  · refine h.bare.relate rel fun qs heq q hq => ⟨rfl, ?_⟩
    subst heq
    cases hoperand with
    | qualifiers hwf => exact hwf.registered q hq

end Record

namespace Problem

/-- Names are known for what is registered and for the targets of the store, and its records are
    well formed. -/
structure WellFormed (p : Problem) : Prop where
  indexed : p.hierarchies.Indexed
  targets : ∀ t ∈ p.store.targets, t ∈ p.names.targets
  records : ∀ {t r}, p.store.record? t = some r → r.WellFormed p.types p.hierarchies

variable {p p' : Problem}

/-- What has a name is a target of the store. -/
theorem mem_targets_of_target (h : ∀ t ∈ p.names.targets, t ∈ p.store.targets)
    {name : String} {t : Target} (ht : p.target name = .ok t) : t ∈ p.store.targets := by
  unfold target TargetNames.id? at ht
  cases hi : p.names.names.idxOf? name with
  | none => simp [hi] at ht
  | some i =>
    obtain rfl : ⟨.ofNat i⟩ = t := by simpa [hi] using ht
    obtain ⟨hlt, -⟩ := List.idxOf?_eq_some_iff.1 hi
    exact h _ (List.mem_map.2 ⟨i, List.mem_range.2 hlt, rfl⟩)

/-- A constraint that has been resolved is added. -/
theorem add_of_resolve (h : ∀ t ∈ p.names.targets, t ∈ p.store.targets) {c : StatedConstraint}
    {t : Target} {operand : Operand} (hresolve : p.resolve c = .ok (t, operand)) :
    p.store.add p.qualifierOrder t c.relation operand =
      .ok (p.store.write t fun r => r.relate p.qualifierOrder c.relation operand) := by
  obtain ⟨u, hu, hnamed⟩ := Except.bind_eq_ok_iff.1 hresolve
  obtain ⟨named, -, htops⟩ := Except.bind_eq_ok_iff.1 hnamed
  obtain ⟨tops, -, hoperand⟩ := Except.bind_eq_ok_iff.1 htops
  obtain ⟨operand', -, heq⟩ := Except.bind_eq_ok_iff.1 hoperand
  cases heq
  exact if_pos (Store.contains_iff.2 (mem_targets_of_target h hu))

theorem wellFormed_resolveOperand (h : p.WellFormed) {tops : Qualifiers} {named : NamedOperand}
    {operand : Operand} (hresolve : p.resolveOperand tops named = .ok operand) :
    operand.WellFormed p.types p.hierarchies := by
  cases named with
  | target name =>
    obtain ⟨t, -, hresolve⟩ := Except.bind_eq_ok_iff.1 hresolve
    cases hresolve
    exact .target t tops
  | type use =>
    obtain ⟨ty, hty, hresolve⟩ := Except.bind_eq_ok_iff.1 hresolve
    cases hresolve
    exact .type tops (NominalTypes.wellFormed_resolve h.indexed (Except.mapError_eq_ok_iff.1 hty))
  | qualifiers names =>
    obtain ⟨qs, hqs, hresolve⟩ := Except.bind_eq_ok_iff.1 hresolve
    cases hresolve
    exact .qualifiers (Hierarchies.wellFormed_resolve h.indexed (Except.mapError_eq_ok_iff.1 hqs))

theorem WellFormed.add (h : p.WellFormed) {store : Store} {t : Target} {rel : Relation}
    {operand : Operand} (hoperand : operand.WellFormed p.types p.hierarchies)
    (hadd : p.store.add .chains t rel operand = .ok store) :
    WellFormed { p with store } where
  indexed := h.indexed
  targets u hu := by
    rw [(Store.add_eq_ok hadd).2, Store.targets_write] at hu
    exact h.targets u hu
  records {u r} hr := by
    rw [Store.record?_add hadd] at hr
    split at hr
    · obtain ⟨r₀, hr₀, rfl⟩ := Option.map_eq_some_iff.1 hr
      exact (h.records hr₀).relate rel hoperand
    · exact h.records hr

theorem WellFormed.addAll (h : p.WellFormed) {index : Nat} {constraints : List StatedConstraint}
    (hall : p.addAll index constraints = .ok p') : p'.WellFormed := by
  induction constraints generalizing p index with
  | nil => cases hall; exact h
  | cons c rest ih =>
    unfold Problem.addAll at hall
    split at hall
    · cases hall
    · next t operand hresolve =>
      split at hall
      · cases hall
      · next store hadd =>
        obtain ⟨u, -, hresolve⟩ := Except.bind_eq_ok_iff.1 hresolve
        obtain ⟨named, -, hresolve⟩ := Except.bind_eq_ok_iff.1 hresolve
        obtain ⟨tops, -, hresolve⟩ := Except.bind_eq_ok_iff.1 hresolve
        obtain ⟨operand', hoperand, hresolve⟩ := Except.bind_eq_ok_iff.1 hresolve
        cases hresolve
        exact ih (h.add (wellFormed_resolveOperand h hoperand) hadd) hall

/-- A problem made of a scenario is well formed. -/
theorem wellFormed_ofScenario {s : Scenario} (h : ofScenario s = .ok p) : p.WellFormed := by
  obtain ⟨hierarchies, hhierarchies, h⟩ := Except.bind_eq_ok_iff.1 h
  obtain ⟨types, -, h⟩ := Except.bind_eq_ok_iff.1 h
  obtain ⟨names, -, h⟩ := Except.bind_eq_ok_iff.1 h
  have hempty : WellFormed ⟨hierarchies, types, names, .new 0 names.targets⟩ := by
    refine ⟨Hierarchies.Indexed.empty.registerAll (Except.mapError_eq_ok_iff.1 hhierarchies),
      ?_, ?_⟩
    · intro t ht
      rw [← Store.isSome_record?, Store.record?_new] at ht
      split at ht
      · next hmem => exact hmem
      · cases ht
    · intro t r hr
      rw [Store.record?_new] at hr
      split at hr
      · cases hr; exact .new t
      · cases hr
  exact hempty.addAll h

end Problem

end QualifiedInference
