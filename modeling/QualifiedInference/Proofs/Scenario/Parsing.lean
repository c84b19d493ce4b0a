-- SUMMARY: Parsing of every way in which a scenario can be written, and refusal of misnamed fields.
import QualifiedInference.Proofs.Scenario.Forms
/-!
# Parsing what is written

A text that writes a form of a scenario is read as this scenario, as far as the reader has room
for its depth. A text in which a record is an object with an unknown or a repeated name is not read
as any scenario, at whatever depth the record stands and whatever else is wrong with the text.
-/

namespace QualifiedInference

open Json

/-! ## Names in objects -/

namespace Json

/-- The members with a name, as far as the object is shown. -/
def Members.entries : Members → List (String × Node)
  | .closed => []
  | .broken _ => []
  | .member (.string (.ok name)) v rest => (name, v) :: rest.entries
  | .member _ _ rest => rest.entries

def Node.items : Node → List Node
  | .array items => items.nodes
  | _ => []

/-- What stands for the fields of a record, be it as it should or not. -/
def Shape.entriesOf (s : Shape) : Node → List (String × Node)
  | .array items => s.fields.zip items.nodes
  | .object members => members.entries
  | _ => []

/-- A name is no field of the record, or it is repeated. -/
def Shape.Misnames (s : Shape) (members : Members) : Prop :=
  (∃ e ∈ members.entries, e.1 ∉ s.fields) ∨ ¬(members.entries.map Prod.fst).Nodup

theorem Members.entries_ofList (entries : List (String × Node)) :
    (Members.ofList entries).entries = entries := by
  induction entries with
  | nil => rfl
  | cons e entries ih => exact congrArg (e :: ·) ih

theorem Items.nodes_ofList (vs : List Node) : (Items.ofList vs).nodes = vs :=
  (Items.eq_ofList_iff.1 rfl).1

variable {α : Type} {P : α → Node → Prop} {s : Shape} {entries : List (String × Node)} {n : Node}

theorem Shape.Lays.entriesOf_eq (h : s.Lays entries n) : s.entriesOf n = entries := by
  cases h with
  | object => exact Members.entries_ofList entries
  | array => rw [entriesOf, Items.nodes_ofList]

theorem Shape.Lays.not_misnames {members : Members} (h : s.Lays entries (.object members)) :
    ¬s.Misnames members := by
  cases h with
  | object hnodup hfields =>
    rw [Misnames, Members.entries_ofList]
    rintro (⟨e, he, hne⟩ | hrepeated)
    · exact hne (hfields e he)
    · exact hrepeated hnodup

theorem Defaulted.form_of_mem {name : String} {default a : α} {v : Node}
    (h : Defaulted P default name entries a) (hlays : s.Lays entries n) (hs : s.fields.Nodup)
    (hv : (name, v) ∈ s.entriesOf n) : P a v := by
  rw [hlays.entriesOf_eq] at hv
  have hvalue : OrderedMap.valueIn? name entries = some v :=
    OrderedMap.valueIn?_of_mem (hlays.nodup hs) hv
  unfold Defaulted at h
  rwa [hvalue] at h

theorem ListForm.form_of_mem {as : List α} {u : Node} (h : ListForm P as n) (hu : u ∈ n.items) :
    ∃ a, P a u := by
  obtain ⟨vs, rfl, h⟩ := h
  rw [Node.items, Items.nodes_ofList] at hu
  induction h with
  | nil => cases hu
  | cons ha _ ih =>
    cases hu with
    | head => exact ⟨_, ha⟩
    | tail _ hu => exact ih hu

end Json

/-! ## Records in a scenario -/

inductive RecordKind where
  | scenario
  | declaration
  | typeUse
  | constraint

namespace RecordKind

def shape : RecordKind → Shape
  | scenario => Scenario.shape
  | declaration => TypeDeclaration.shape
  | typeUse => TypeUse.shape
  | constraint => StatedConstraint.shape

/-- The node is a form of some such record, or of none where a use of a type may be missing. -/
def Form : RecordKind → Node → Prop
  | scenario, n => ∃ s, Scenario.Form s n
  | declaration, n => ∃ d, TypeDeclaration.Form d n
  | typeUse, n => ∃ t?, OptionForm TypeUse.Form t? n
  | constraint, n => ∃ c, StatedConstraint.Form c n

theorem Form.not_misnames {kind : RecordKind} {members : Members}
    (h : kind.Form (.object members)) : ¬kind.shape.Misnames members := by
  cases kind with
  | scenario =>
    obtain ⟨s, entries, hlays, -⟩ := h
    exact hlays.not_misnames
  | declaration =>
    obtain ⟨d, entries, hlays, -⟩ := h
    exact hlays.not_misnames
  | constraint =>
    obtain ⟨c, entries, hlays, -⟩ := h
    exact hlays.not_misnames
  | typeUse =>
    obtain ⟨t?, h⟩ := h
    obtain _ | ⟨name, args, qualifiers⟩ := t?
    · cases h
    · obtain ⟨entries, hlays, -⟩ := TypeUse.form_mk_iff.1 h
      exact hlays.not_misnames

end RecordKind

namespace Scenario

/-- The places of records in the node of a scenario, at any depth. -/
inductive Stands (root : Node) : RecordKind → Node → Prop
  | scenario : Stands root .scenario root
  | declaration {n v u : Node} (h : Stands root .scenario n)
    (hv : ("types", v) ∈ Scenario.shape.entriesOf n) (hu : u ∈ v.items) :
    Stands root .declaration u
  | constraint {n v u : Node} (h : Stands root .scenario n)
    (hv : ("constraints", v) ∈ Scenario.shape.entriesOf n) (hu : u ∈ v.items) :
    Stands root .constraint u
  | operand {n v : Node} (h : Stands root .constraint n)
    (hv : ("type", v) ∈ StatedConstraint.shape.entriesOf n) : Stands root .typeUse v
  | argument {n v u : Node} (h : Stands root .typeUse n)
    (hv : ("args", v) ∈ TypeUse.shape.entriesOf n) (hu : u ∈ v.items) : Stands root .typeUse u

/-- Somewhere the object of a record has an unknown or a repeated name. -/
def Misnamed (root : Node) : Prop :=
  ∃ kind members, Stands root kind (.object members) ∧ kind.shape.Misnames members

variable {s : Scenario} {root n : Node} {kind : RecordKind}

/-- Each record of a form of a scenario is a form of a record. -/
theorem Stands.form (hroot : s.Form root) (h : Stands root kind n) : kind.Form n := by
  induction h with
  | scenario => exact ⟨s, hroot⟩
  | declaration _ hv hu ih =>
    obtain ⟨s, entries, hlays, -, htypes, -⟩ := ih
    exact (htypes.form_of_mem hlays (by decide) hv).form_of_mem hu
  | constraint _ hv hu ih =>
    obtain ⟨s, entries, hlays, -, -, -, hconstraints⟩ := ih
    exact (hconstraints.form_of_mem hlays (by decide) hv).form_of_mem hu
  | operand _ hv ih =>
    obtain ⟨c, entries, hlays, -, -, -, htype, -⟩ := ih
    exact ⟨_, htype.form_of_mem hlays (by decide) hv⟩
  | argument _ hv hu ih =>
    obtain ⟨t?, h⟩ := ih
    obtain _ | ⟨name, args, qualifiers⟩ := t?
    · -- An operand that is null has no arguments.
      cases h
      cases hv
    · obtain ⟨entries, hlays, -, hargs, -⟩ := TypeUse.form_mk_iff.1 h
      obtain ⟨t, ht⟩ := (hargs.form_of_mem hlays (by decide) hv).form_of_mem hu
      exact ⟨some t, ht⟩

theorem not_misnamed_of_form (hroot : s.Form root) : ¬Misnamed root := by
  rintro ⟨kind, members, hstands, hmisnames⟩
  exact (hstands.form hroot).not_misnames hmisnames

/-! ## Texts -/

theorem parse_eq_ok_iff {text : String} : parse text = .ok s ↔
    s.Form (Document.ofText text).root ∧ (Document.ofText text).trailing = false := by
  unfold parse ofDocument
  simp only [Except.bind_eq_ok_iff, reads_ofNode _ _]
  cases (Document.ofText text).trailing <;> simp

/-- A scenario is read from each text that writes one of its forms, and from no text in which some
    record has a name that is unknown or repeated. -/
theorem parse_form :
    (∀ (s : Scenario) (n : Node) (text : String),
      s.Form n → n.WritesText text → n.depth ≤ 127 → parse text = .ok s) ∧
    (∀ (n : Node) (text : String),
      n.WritesText text ∨ (Document.ofText text).root = n → Misnamed n →
        ∀ s, parse text ≠ .ok s) := by
  constructor
  · intro s n text hform hwrites hdepth
    rw [parse_eq_ok_iff, Document.ofText_eq_of_writes hwrites hform.whole hdepth]
    exact ⟨hform, rfl⟩
  · intro n text hshown hmisnamed s hparse
    have hform := (parse_eq_ok_iff.1 hparse).1
    obtain hwrites | rfl := hshown
    · -- Either the reader shows `n` itself, or it breaks off, and no scenario has such a form.
      by_cases hfits : n.Whole ∧ n.depth ≤ maxDepth
      · rw [Document.ofText_eq_of_writes hwrites hfits.1 hfits.2] at hform
        exact not_misnamed_of_form hform hmisnamed
      · exact Document.not_whole_ofText hwrites hfits hform.whole
    · exact not_misnamed_of_form hform hmisnamed

/-- One constraint in an object, and its relation; all other records in arrays. -/
def boundedNode : Node :=
  .array (.ofList [.array .closed, .array .closed, .array (.ofList [.string (.ok "T")]),
    .array (.ofList [.object (.ofList [("target", .string (.ok "T")),
      ("relation", .object (.ofList [("equal", null)])),
      ("type", .array (.ofList [.string (.ok "A")]))])])])

def boundedText : String :=
  "[[],[],[\"T\"],[\x7b\"target\":\"T\",\"relation\":\x7b\"equal\":null\x7d,\"type\":[\"A\"]\x7d]]"

def bounded : Scenario :=
  ⟨[], [], ["T"], [⟨.equal, "T", none, some (.mk "A" [] []), none, none⟩]⟩

theorem bounded_form : bounded.Form boundedNode :=
  ⟨_, .array (by decide), ⟨[], rfl, .nil⟩, ⟨[], rfl, .nil⟩, ⟨_, rfl, _, rfl, .cons rfl .nil⟩,
    ⟨_, rfl, .cons ⟨_, .object (by decide) (by decide), ⟨_, rfl, .inr rfl⟩, ⟨_, rfl, rfl⟩, rfl,
      ⟨_, .array (by decide), ⟨_, rfl, rfl⟩, rfl, rfl⟩, rfl, rfl⟩ .nil⟩⟩

theorem boundedNode_writesText : boundedNode.WritesText boundedText :=
  ⟨[], _, [], nofun, nofun,
    .array (.cons (.array .nil) (.cons (.array .nil)
      (.cons (.array (.cons (.plain rfl) .nil))
        (.cons (.array (.cons (.object (.members (.plain rfl (.plain rfl)
          (.cons rfl (.object (.members (.plain rfl .null .nil)))
            (.cons rfl (.array (.cons (.plain rfl) .nil)) .nil))))) .nil))
          .nil)))),
    rfl⟩

/-- An argument of the type in a constraint has a name that is no field. -/
def strayNode : Node :=
  .array (.ofList [.array .closed, .array .closed, .array .closed,
    .array (.ofList [.array (.ofList [.string (.ok "equal"), .string (.ok "T"), null,
      .array (.ofList [.string (.ok "A"), .array (.ofList [.object (.ofList
        [("name", .string (.ok "B")), ("x", null)])])])])])])

def strayText : String :=
  "[[],[],[],[[\"equal\",\"T\",null,[\"A\",[\x7b\"name\":\"B\",\"x\":null\x7d]]]]]"

theorem strayNode_misnamed : Misnamed strayNode := by
  refine ⟨.typeUse, .ofList [("name", .string (.ok "B")), ("x", null)], ?_,
    .inl ⟨("x", null), .tail _ (.head _), by decide⟩⟩
  have hscenario : Stands strayNode .scenario strayNode := .scenario
  have hconstraint := hscenario.constraint (.tail _ (.tail _ (.tail _ (.head _)))) (.head _)
  have hoperand := hconstraint.operand (.tail _ (.tail _ (.tail _ (.head _))))
  exact hoperand.argument (.tail _ (.head _)) (.head _)

theorem strayNode_writesText : strayNode.WritesText strayText :=
  ⟨[], _, [], nofun, nofun,
    .array (.cons (.array .nil) (.cons (.array .nil) (.cons (.array .nil)
      (.cons (.array (.cons (.array (.cons (.plain rfl) (.cons (.plain rfl)
        (.cons .null (.cons (.array (.cons (.plain rfl) (.cons (.array (.cons
          (.object (.members (.plain rfl (.plain rfl)
            (.cons rfl .null .nil)))) .nil)) .nil))) .nil))))) .nil)) .nil)))),
    rfl⟩

theorem parse_form_bounded : parse boundedText = .ok bounded ∧ ∀ s, parse strayText ≠ .ok s :=
  ⟨parse_form.1 bounded boundedNode boundedText bounded_form boundedNode_writesText (by decide),
    parse_form.2 strayNode strayText (.inl strayNode_writesText) strayNode_misnamed⟩

end Scenario

end QualifiedInference
