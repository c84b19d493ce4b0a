-- SUMMARY: The nodes that are read as scenarios and as parts of them.
import QualifiedInference.Proofs.Json.Records
import QualifiedInference.Scenario.Reader
/-!
# How scenarios are written

The forms of a scenario and of its parts: the nodes that are read as them. Each record is laid
out in one of two ways, and what is left out is the default.
-/

namespace QualifiedInference

open Json

/-! ## Relations -/

namespace Relation

/-- The name alone, or an object with that name for its one member. -/
def Form (r : Relation) (n : Node) : Prop :=
  StringForm r.name n ∨ n = .object (.ofList [(r.name, null)])

theorem ofName_eq_ok_iff {s : String} {r : Relation} : ofName s = .ok r ↔ s = r.name := by
  constructor
  · intro h
    unfold ofName at h
    split at h
    · next hfind =>
      cases h
      have hname := List.find?_some hfind
      exact (eq_of_beq hname).symm
    · cases h
  · rintro rfl
    cases r <;> rfl

theorem reads_ofNode : Reads ofNode Form := by
  intro n r
  unfold ofNode
  split
  · simp [ofName_eq_ok_iff, Form, StringForm]
  · simp [Form, StringForm]
  · simp [Form, StringForm]
  · next members =>
    cases members with
    | closed => simp [ofMembers, Form, StringForm, Members.ofList]
    | broken b => simp [ofMembers, Form, StringForm, Members.ofList]
    | member key v rest =>
      simp only [ofMembers, Except.bind_eq_ok_iff, toName_eq_ok_iff, ofName_eq_ok_iff,
        toUnit_eq_ok_iff]
      cases rest <;> simp [Form, StringForm, Members.ofList]
  · simp [Form, StringForm]
  · simp [Form, StringForm]

theorem Form.whole {r : Relation} {n : Node} (h : r.Form n) : n.Whole := by
  rcases h with rfl | rfl
  · exact ⟨_, rfl⟩
  · exact Members.whole_ofList_iff.2 (by simp [null, Node.Whole])

end Relation

/-! ## Types -/

namespace TypeDeclaration

/-- A record of the name and of the type that is extended, if there is one. -/
def Form (d : TypeDeclaration) (n : Node) : Prop :=
  ∃ entries, shape.Lays entries n ∧
    Required StringForm "name" entries d.name ∧
    Defaulted (OptionForm StringForm) none "extends" entries d.super?

def parts : List (DraftPart Draft) :=
  [⟨"name", fun v => some <$> v.toString, Draft.name?, fun d a => { d with name? := a }⟩,
    ⟨"extends", Node.toOption Node.toString, Draft.super?, fun d a => { d with super? := a }⟩]

theorem fills : Fills parts Draft.set where
  nodup := by decide
  set_eq := by simp [parts, Draft.set]
  place_put := by simp [parts]
  place_put_of_ne := by simp [parts]
  ext d d' h := by
    cases d
    cases d'
    simpa [parts] using h

theorem reads_ofNode : Reads ofNode Form := by
  intro n d
  -- The declaration is made of one draft only.
  have hdraft (d' : Draft) : (∃ name, d'.name? = some name ∧
      (pure ⟨name, d'.super?⟩ : Except DecodeError _) = .ok d) ↔ d' = ⟨some d.name, d.super?⟩ := by
    obtain ⟨name?, super?⟩ := d'
    cases d
    simp [pure, Except.pure, eq_comm, and_comm]
  unfold ofNode Form
  simp only [Except.bind_eq_ok_iff, Fields.require_eq_ok_iff,
    fills.exists_fields_iff (s := shape) rfl hdraft, parts, List.forall_mem_cons,
    (reads_toString.toOption not_stringForm_null).filled_iff_defaulted]
  simp [reads_toString.filled_iff_required]

theorem Form.whole {d : TypeDeclaration} {n : Node} (h : d.Form n) : n.Whole := by
  obtain ⟨entries, hlays, hname, hsuper⟩ := h
  refine hlays.whole (by decide) ?_
  simp only [shape, List.forall_mem_cons]
  exact ⟨hname.whole fun _ => StringForm.whole,
    hsuper.whole fun _ => OptionForm.whole fun _ _ => StringForm.whole, List.forall_mem_nil _⟩

end TypeDeclaration

namespace TypeUse

mutual

/-- A record of the name and of lists of arguments and qualifiers, which are empty by default. The
    arguments are written in the same way. -/
def Form : TypeUse → Node → Prop
  | .mk name args qualifiers, n => ∃ entries, shape.Lays entries n ∧
    Required StringForm "name" entries name ∧
    (match OrderedMap.valueIn? "args" entries with
      | some v => ∃ vs, v = .array (.ofList vs) ∧ FormAll args vs
      | none => args = []) ∧
    Defaulted (ListForm StringForm) [] "qualifiers" entries qualifiers

def FormAll : List TypeUse → List Node → Prop
  | [], vs => vs = []
  | t :: ts, vs => ∃ u us, vs = u :: us ∧ t.Form u ∧ FormAll ts us

end

theorem formAll_iff {ts : List TypeUse} {vs : List Node} :
    FormAll ts vs ↔ List.Forall₂ Form ts vs := by
  induction ts generalizing vs with
  | nil => simp [FormAll]
  | cons t ts ih =>
    simp only [FormAll, ih, List.forall₂_cons_left_iff]
    constructor
    · rintro ⟨u, us, rfl, hu, hus⟩
      exact ⟨u, us, hu, hus, rfl⟩
    · rintro ⟨u, us, hu, hus, rfl⟩
      exact ⟨u, us, rfl, hu, hus⟩

theorem form_mk_iff {name : String} {args : List TypeUse} {qualifiers : List String} {n : Node} :
    (mk name args qualifiers).Form n ↔ ∃ entries, shape.Lays entries n ∧
      Required StringForm "name" entries name ∧
      Defaulted (ListForm Form) [] "args" entries args ∧
      Defaulted (ListForm StringForm) [] "qualifiers" entries qualifiers := by
  simp only [Form, formAll_iff]
  exact Iff.rfl

mutual

theorem induction {P : TypeUse → Prop}
    (h : ∀ name args qualifiers, (∀ t ∈ args, P t) → P (mk name args qualifiers)) : ∀ t, P t
  | mk name args qualifiers => h name args qualifiers (inductionAll h args)

theorem inductionAll {P : TypeUse → Prop}
    (h : ∀ name args qualifiers, (∀ t ∈ args, P t) → P (mk name args qualifiers)) :
    ∀ ts : List TypeUse, ∀ t ∈ ts, P t
  | [] => nofun
  | t :: ts => List.forall_mem_cons.2 ⟨induction h t, inductionAll h ts⟩

end

def Draft.set (d : Draft) (e : String × Node) : Except DecodeError Draft :=
  match e.1 with
  | "name" => return { d with name? := some (← e.2.toString) }
  | "args" => return { d with args := ← e.2.toList ofNode }
  | _ => return { d with qualifiers := ← e.2.toList Node.toString }

/-- The reader without what shows that it ends. -/
theorem ofNode_eq (n : Node) : ofNode n = do
    let fs ← shape.fieldsOf n
    let d : Draft ← fs.decode ⟨none, [], []⟩ fun d e _ => d.set e
    return .mk (← fs.require "name" d.name?) d.args d.qualifiers := by
  rw [ofNode]
  split
  · next heq => rw [heq]; rfl
  · next fs heq =>
    rw [heq]
    -- The two differ in nothing but how a single field is set.
    change Fields.decode fs _ _ >>= _ = Fields.decode fs _ _ >>= _
    congr
    funext d e he
    obtain ⟨name, v⟩ := e
    split
    · next hname =>
      obtain rfl : name = "name" := hname
      rfl
    · next hname =>
      obtain rfl : name = "args" := hname
      cases v <;> rfl
    · simp [Draft.set]

def parts : List (DraftPart Draft) :=
  [⟨"name", fun v => some <$> v.toString, Draft.name?, fun d a => { d with name? := a }⟩,
    ⟨"args", Node.toList ofNode, Draft.args, fun d a => { d with args := a }⟩,
    ⟨"qualifiers", Node.toList Node.toString, Draft.qualifiers,
      fun d a => { d with qualifiers := a }⟩]

theorem fills : Fills parts Draft.set where
  nodup := by decide
  set_eq := by simp [parts, Draft.set]
  place_put := by simp [parts]
  place_put_of_ne := by simp [parts]
  ext d d' h := by
    cases d
    cases d'
    simpa [parts] using h

theorem reads_ofNode : Reads ofNode Form := by
  intro n t
  induction t using induction generalizing n with
  | h name args qualifiers ih =>
    have hdraft (d' : Draft) : (∃ name', d'.name? = some name' ∧
        (pure (mk name' d'.args d'.qualifiers) : Except DecodeError _) =
          .ok (mk name args qualifiers)) ↔ d' = ⟨some name, args, qualifiers⟩ := by
      obtain ⟨name?, args', qualifiers'⟩ := d'
      simp [pure, Except.pure, and_comm]
    -- By induction on what is read, not on the node, in which the arguments lie deeper.
    have hargs (v : Node) : ListForm (fun t u => ofNode u = .ok t) args v ↔ ListForm Form args v :=
      ListForm.congr fun t ht u => ih t ht u
    rw [ofNode_eq]
    simp only [Except.bind_eq_ok_iff, Fields.require_eq_ok_iff,
      fills.exists_fields_iff (s := shape) rfl hdraft, parts, List.forall_mem_cons,
      (reads_toList_self : Reads (Node.toList ofNode) _).filled_iff_defaulted,
      reads_toString.toList.filled_iff_defaulted, form_mk_iff, Defaulted.congr hargs]
    simp [reads_toString.filled_iff_required]

theorem Form.whole {t : TypeUse} {n : Node} (h : t.Form n) : n.Whole := by
  induction t using induction generalizing n with
  | h name args qualifiers ih =>
    obtain ⟨entries, hlays, hname, hargs, hqualifiers⟩ := form_mk_iff.1 h
    refine hlays.whole (by decide) ?_
    simp only [shape, List.forall_mem_cons]
    exact ⟨hname.whole fun _ => StringForm.whole,
      hargs.whole fun _ => ListForm.whole fun t ht _ => ih t ht,
      hqualifiers.whole fun _ => ListForm.whole fun _ _ _ => StringForm.whole,
      List.forall_mem_nil _⟩

theorem not_form_null (t : TypeUse) : ¬t.Form null := by
  obtain ⟨name, args, qualifiers⟩ := t
  rw [form_mk_iff]
  rintro ⟨entries, hlays, -⟩
  cases hlays

end TypeUse

/-! ## Constraints -/

namespace StatedConstraint

/-- A record of the relation, the target and whatever else is stated. -/
def Form (c : StatedConstraint) (n : Node) : Prop :=
  ∃ entries, shape.Lays entries n ∧
    Required Relation.Form "relation" entries c.relation ∧
    Required StringForm "target" entries c.target ∧
    Defaulted (OptionForm StringForm) none "otherTarget" entries c.otherTarget? ∧
    Defaulted (OptionForm TypeUse.Form) none "type" entries c.type? ∧
    Defaulted (OptionForm (ListForm StringForm)) none "qualifiers" entries c.qualifiers? ∧
    Defaulted (OptionForm (ListForm StringForm)) none "hierarchies" entries c.hierarchies?

def parts : List (DraftPart Draft) :=
  [⟨"relation", fun v => some <$> Relation.ofNode v, Draft.relation?,
      fun d a => { d with relation? := a }⟩,
    ⟨"target", fun v => some <$> v.toString, Draft.target?, fun d a => { d with target? := a }⟩,
    ⟨"otherTarget", Node.toOption Node.toString, Draft.otherTarget?,
      fun d a => { d with otherTarget? := a }⟩,
    ⟨"type", Node.toOption TypeUse.ofNode, Draft.type?, fun d a => { d with type? := a }⟩,
    ⟨"qualifiers", Node.toOption (Node.toList Node.toString), Draft.qualifiers?,
      fun d a => { d with qualifiers? := a }⟩,
    ⟨"hierarchies", Node.toOption (Node.toList Node.toString), Draft.hierarchies?,
      fun d a => { d with hierarchies? := a }⟩]

theorem fills : Fills parts Draft.set where
  nodup := by decide
  set_eq := by simp [parts, Draft.set]
  place_put := by simp [parts]
  place_put_of_ne := by simp [parts]
  ext d d' h := by
    cases d
    cases d'
    simpa [parts] using h

theorem reads_ofNode : Reads ofNode Form := by
  intro n c
  have hdraft (d : Draft) : (∃ r, d.relation? = some r ∧ ∃ t, d.target? = some t ∧
      (pure ⟨r, t, d.otherTarget?, d.type?, d.qualifiers?, d.hierarchies?⟩ :
        Except DecodeError _) = .ok c) ↔
      d = ⟨some c.relation, some c.target, c.otherTarget?, c.type?, c.qualifiers?,
        c.hierarchies?⟩ := by
    obtain ⟨relation?, target?, otherTarget?, type?, qualifiers?, hierarchies?⟩ := d
    cases c
    simp [pure, Except.pure]
  have hstrings := reads_toString.toList.toOption not_listForm_null
  unfold ofNode Form
  simp only [Except.bind_eq_ok_iff, Fields.require_eq_ok_iff,
    fills.exists_fields_iff (s := shape) rfl hdraft, parts, List.forall_mem_cons,
    (reads_toString.toOption not_stringForm_null).filled_iff_defaulted,
    (TypeUse.reads_ofNode.toOption TypeUse.not_form_null).filled_iff_defaulted,
    hstrings.filled_iff_defaulted]
  simp [reads_toString.filled_iff_required, Relation.reads_ofNode.filled_iff_required]

theorem Form.whole {c : StatedConstraint} {n : Node} (h : c.Form n) : n.Whole := by
  obtain ⟨entries, hlays, hrelation, htarget, hother, htype, hqualifiers, hhierarchies⟩ := h
  have hstrings (ss? : Option (List String)) (v : Node) :
      OptionForm (ListForm StringForm) ss? v → v.Whole :=
    OptionForm.whole fun _ _ => ListForm.whole fun _ _ _ => StringForm.whole
  refine hlays.whole (by decide) ?_
  simp only [shape, List.forall_mem_cons]
  exact ⟨hrelation.whole fun _ => Relation.Form.whole, htarget.whole fun _ => StringForm.whole,
    hother.whole fun _ => OptionForm.whole fun _ _ => StringForm.whole,
    htype.whole fun _ => OptionForm.whole fun _ _ => TypeUse.Form.whole,
    hqualifiers.whole (hstrings _), hhierarchies.whole (hstrings _), List.forall_mem_nil _⟩

end StatedConstraint

/-! ## Scenarios -/

namespace Scenario

/-- A record of lists, of which only the targets must be there. -/
def Form (s : Scenario) (n : Node) : Prop :=
  ∃ entries, shape.Lays entries n ∧
    Defaulted (ListForm (ListForm StringForm)) [] "qualifiers" entries s.qualifiers ∧
    Defaulted (ListForm TypeDeclaration.Form) [] "types" entries s.types ∧
    Required (ListForm StringForm) "targets" entries s.targets ∧
    Defaulted (ListForm StatedConstraint.Form) [] "constraints" entries s.constraints

def parts : List (DraftPart Draft) :=
  [⟨"qualifiers", Node.toList (Node.toList Node.toString), Draft.qualifiers,
      fun d a => { d with qualifiers := a }⟩,
    ⟨"types", Node.toList TypeDeclaration.ofNode, Draft.types, fun d a => { d with types := a }⟩,
    ⟨"targets", fun v => some <$> v.toList Node.toString, Draft.targets?,
      fun d a => { d with targets? := a }⟩,
    ⟨"constraints", Node.toList StatedConstraint.ofNode, Draft.constraints,
      fun d a => { d with constraints := a }⟩]

theorem fills : Fills parts Draft.set where
  nodup := by decide
  set_eq := by simp [parts, Draft.set]
  place_put := by simp [parts]
  place_put_of_ne := by simp [parts]
  ext d d' h := by
    cases d
    cases d'
    simpa [parts] using h

theorem reads_ofNode : Reads ofNode Form := by
  intro n s
  have hdraft (d : Draft) : (∃ ts, d.targets? = some ts ∧
      (pure ⟨d.qualifiers, d.types, ts, d.constraints⟩ : Except DecodeError _) = .ok s) ↔
      d = ⟨s.qualifiers, s.types, some s.targets, s.constraints⟩ := by
    obtain ⟨qualifiers, types, targets?, constraints⟩ := d
    cases s
    simp [pure, Except.pure, and_left_comm]
  unfold ofNode Form
  simp only [Except.bind_eq_ok_iff, Fields.require_eq_ok_iff,
    fills.exists_fields_iff (s := shape) rfl hdraft, parts, List.forall_mem_cons,
    reads_toString.toList.toList.filled_iff_defaulted,
    TypeDeclaration.reads_ofNode.toList.filled_iff_defaulted,
    StatedConstraint.reads_ofNode.toList.filled_iff_defaulted]
  simp [reads_toString.toList.filled_iff_required]

theorem Form.whole {s : Scenario} {n : Node} (h : s.Form n) : n.Whole := by
  obtain ⟨entries, hlays, hqualifiers, htypes, htargets, hconstraints⟩ := h
  refine hlays.whole (by decide) ?_
  simp only [shape, List.forall_mem_cons]
  exact ⟨hqualifiers.whole fun _ => ListForm.whole fun _ _ _ => ListForm.whole fun _ _ _ =>
      StringForm.whole,
    htypes.whole fun _ => ListForm.whole fun _ _ _ => TypeDeclaration.Form.whole,
    htargets.whole fun _ => ListForm.whole fun _ _ _ => StringForm.whole,
    hconstraints.whole fun _ => ListForm.whole fun _ _ _ => StatedConstraint.Form.whole,
    List.forall_mem_nil _⟩

end Scenario

end QualifiedInference
