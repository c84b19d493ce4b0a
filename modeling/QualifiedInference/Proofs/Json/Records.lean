-- SUMMARY: The nodes that typed readers take: lists, options and records.
import QualifiedInference.Json.Decoding
import QualifiedInference.OrderedMap
import QualifiedInference.Proofs.Base.Except
import QualifiedInference.Proofs.Base.List
import QualifiedInference.Proofs.Json.Grammar
/-!
# Records in nodes

Which nodes the typed readers take, and for which values: lists, options, and records that are
laid out as objects or as arrays. A record is read into a draft, one field after the other in the
order of the text. What the draft holds in the end is told field by field, whatever the order.
-/

namespace QualifiedInference

namespace Json

/-! ## Complete collections -/

def Items.ofList : List Node → Items
  | [] => .closed
  | v :: vs => .item v (ofList vs)

def Members.ofList : List (String × Node) → Members
  | [] => .closed
  | (name, v) :: entries => .member (.string (.ok name)) v (ofList entries)

theorem Items.eq_ofList_iff {items : Items} {vs : List Node} :
    items = .ofList vs ↔ items.nodes = vs ∧ items.break? = none := by
  induction vs generalizing items with
  | nil => cases items <;> simp [ofList, nodes, break?]
  | cons u vs ih => cases items <;> simp [ofList, nodes, break?, ih, and_assoc]

theorem Items.whole_ofList_iff {vs : List Node} :
    (Items.ofList vs).Whole ↔ ∀ v ∈ vs, v.Whole := by
  induction vs with
  | nil => simp [ofList, Whole]
  | cons v vs ih => simp [ofList, Whole, ih]

theorem Members.whole_ofList_iff {entries : List (String × Node)} :
    (Members.ofList entries).Whole ↔ ∀ e ∈ entries, e.2.Whole := by
  induction entries with
  | nil => simp [ofList, Whole]
  | cons e entries ih => simp [ofList, Whole, Node.Whole, ih]

/-! ## Strings, options and lists -/

section Forms

variable {α : Type} {P : α → Node → Prop} {decode : Node → Except DecodeError α}

def null : Node := .scalar (.ok .null)

def StringForm (s : String) (n : Node) : Prop := n = .string (.ok s)

theorem not_stringForm_null (s : String) : ¬StringForm s null := fun h => by cases h

def OptionForm (P : α → Node → Prop) : Option α → Node → Prop
  | none, n => n = null
  | some a, n => P a n

def ListForm (P : α → Node → Prop) (as : List α) (n : Node) : Prop :=
  ∃ vs, n = .array (.ofList vs) ∧ List.Forall₂ P as vs

theorem not_listForm_null (as : List α) : ¬ListForm P as null := fun ⟨_, h, _⟩ => by cases h

/-- `decode` takes the nodes that are forms of a value, each for that value. -/
def Reads (decode : Node → Except DecodeError α) (P : α → Node → Prop) : Prop :=
  ∀ n a, decode n = .ok a ↔ P a n

theorem reads_toString : Reads Node.toString StringForm := by
  intro n s
  unfold Node.toString
  split <;> simp_all [StringForm]

theorem toName_eq_ok_iff {n : Node} {s : String} : n.toName = .ok s ↔ StringForm s n := by
  unfold Node.toName
  split <;> simp_all [StringForm]

theorem toUnit_eq_ok_iff {n : Node} {u : Unit} : n.toUnit = .ok u ↔ n = null := by
  unfold Node.toUnit
  split <;> simp_all [null]

theorem Reads.toOption (h : Reads decode P) (hnull : ∀ a, ¬P a null) :
    Reads (Node.toOption decode) (OptionForm P) := by
  intro n a?
  unfold Node.toOption
  split
  · cases a? with
    | none => exact iff_of_true rfl rfl
    | some a => exact iff_of_false nofun (hnull a)
  · next hn =>
    -- What is not null is left to `decode`, which takes it for no absent value.
    change some <$> decode n = .ok a? ↔ _
    rw [Except.map_some_eq_ok_iff]
    cases a? with
    | none => exact iff_of_false nofun hn
    | some a => simp [OptionForm, ← h n a]

theorem toList_eq_ok_iff {n : Node} {as : List α} : n.toList decode = .ok as ↔
    ListForm (fun a v => decode v = .ok a) as n := by
  unfold Node.toList
  split
  · next items =>
    have hmapM : items.nodes.attach.mapM (decode ∘ Subtype.val) = items.nodes.mapM decode := by
      rw [← List.mapM_map, List.attach_map_subtype_val]
    change (items.nodes.attach.mapM (decode ∘ Subtype.val) >>= _) = _ ↔ _
    simp only [hmapM, Except.bind_eq_ok_iff, Except.mapM_eq_ok_iff, ListForm, Node.array.injEq,
      Items.eq_ofList_iff]
    cases items.break? <;> simp
  · next n hn => exact iff_of_false nofun fun ⟨vs, heq, _⟩ => hn _ heq

theorem Reads.toList (h : Reads decode P) : Reads (Node.toList decode) (ListForm P) := by
  intro n as
  simp only [toList_eq_ok_iff, h _ _]

theorem reads_toList_self : Reads (Node.toList decode) (ListForm fun a v => decode v = .ok a) :=
  fun _ _ => toList_eq_ok_iff

theorem ListForm.congr {Q : α → Node → Prop} {as : List α} {n : Node}
    (h : ∀ a ∈ as, ∀ v, P a v ↔ Q a v) : ListForm P as n ↔ ListForm Q as n := by
  have hitems (vs : List Node) : List.Forall₂ P as vs ↔ List.Forall₂ Q as vs := by
    induction as generalizing vs with
    | nil => simp
    | cons a as ih =>
      obtain ⟨ha, has⟩ := List.forall_mem_cons.1 h
      simp only [List.forall₂_cons_left_iff, ha, ih has]
  simp only [ListForm, hitems]

theorem StringForm.whole {s : String} {n : Node} (h : StringForm s n) : n.Whole := by
  cases h
  exact ⟨s, rfl⟩

theorem OptionForm.whole (hP : ∀ a v, P a v → v.Whole) {a? : Option α} {n : Node}
    (h : OptionForm P a? n) : n.Whole := by
  cases a? with
  | none => cases h; exact ⟨_, rfl⟩
  | some a => exact hP a n h

theorem ListForm.whole {as : List α} (hP : ∀ a ∈ as, ∀ v, P a v → v.Whole) {n : Node}
    (h : ListForm P as n) : n.Whole := by
  obtain ⟨vs, rfl, h⟩ := h
  induction h with
  | nil => trivial
  | cons ha _ ih =>
    obtain ⟨hv, hvs⟩ := List.forall_mem_cons.1 hP
    exact ⟨hv _ ha, ih hvs⟩

end Forms

/-! ## Layout -/

namespace Shape

variable {s : Shape} {entries : List (String × Node)} {n : Node}

/-- How the fields of a record are laid out: some of them in any order in an object, or the first
    of them in their own order in an array. -/
inductive Lays (s : Shape) : List (String × Node) → Node → Prop
  | object {entries : List (String × Node)} (hnodup : (entries.map Prod.fst).Nodup)
    (hfields : ∀ e ∈ entries, e.1 ∈ s.fields) : Lays s entries (.object (.ofList entries))
  | array {vs : List Node} (h : vs.length ≤ s.fields.length) :
    Lays s (s.fields.zip vs) (.array (.ofList vs))

theorem byPosition_eq_none_iff {names : List String} {items : Items} :
    byPosition names items = (entries, none) ↔
      ∃ vs, vs.length ≤ names.length ∧ entries = names.zip vs ∧ items = .ofList vs := by
  constructor
  · intro h
    fun_induction byPosition names items generalizing entries with
    | case1 names => cases h; exact ⟨[], by simp [Items.ofList]⟩
    | case2 => cases h
    | case3 => cases h
    | case4 name names v rest entries' problem? hrest ih =>
      cases h
      obtain ⟨vs, hle, rfl, rfl⟩ := ih hrest
      exact ⟨v :: vs, Nat.succ_le_succ hle, rfl, rfl⟩
  · rintro ⟨vs, hle, rfl, rfl⟩
    induction vs generalizing names with
    | nil => simp [Items.ofList, byPosition]
    | cons v vs ih =>
      cases names with
      | nil => cases hle
      | cons name names => simp [Items.ofList, byPosition, ih (Nat.le_of_succ_le_succ hle)]

theorem byName_eq_none_iff {known seen : List String} {members : Members} :
    byName known seen members = (entries, none) ↔
      (entries.map Prod.fst).Nodup ∧ (∀ e ∈ entries, e.1 ∈ known ∧ e.1 ∉ seen) ∧
        members = .ofList entries := by
  constructor
  · intro h
    fun_induction byName known seen members generalizing entries with
    | case6 seen key v rest name hkey hknown hseen entries' problem? hrest ih =>
      cases h
      obtain ⟨hnodup, hall, rfl⟩ := ih hrest
      obtain rfl := toName_eq_ok_iff.1 hkey
      -- The names after this one are none of those seen, and this one is seen by then.
      have hnew : name ∉ entries'.map Prod.fst := fun hmem => by
        obtain ⟨e, he, rfl⟩ := List.mem_map.1 hmem
        exact (hall e he).2 (.head _)
      refine ⟨.cons hnew hnodup, List.forall_mem_cons.2 ⟨⟨not_not.1 hknown, hseen⟩, ?_⟩, rfl⟩
      exact fun e he => ⟨(hall e he).1, fun hmem => (hall e he).2 (.tail _ hmem)⟩
    | case1 => cases h; simp [Members.ofList]
    | _ => cases h
  · rintro ⟨hnodup, hall, rfl⟩
    induction entries generalizing seen with
    | nil => rfl
    | cons e entries ih =>
      obtain ⟨name, v⟩ := e
      obtain ⟨hnew, hnodup⟩ := List.nodup_cons.1 hnodup
      obtain ⟨⟨hknown, hseen⟩, hall⟩ := List.forall_mem_cons.1 hall
      have hall' : ∀ e ∈ entries, e.1 ∈ known ∧ e.1 ∉ name :: seen := by
        refine fun e he => ⟨(hall e he).1, fun hmem => ?_⟩
        rcases List.mem_cons.1 hmem with heq | hmem
        · exact hnew (List.mem_map.2 ⟨e, he, heq⟩)
        · exact (hall e he).2 hmem
      have hrest := ih hnodup hall'
      unfold Members.ofList byName
      rw [toName_eq_ok_iff.2 rfl]
      simp only [not_not.2 hknown, hseen, if_false, hrest]

theorem lays_iff : s.Lays entries n ↔
    ∃ fs, s.fieldsOf n = .ok fs ∧ fs.problem? = none ∧ fs.entries = entries := by
  constructor
  · intro h
    cases h with
    | @object _ hnodup hfields =>
      have hnames : byName s.fields [] (.ofList entries) = (entries, none) :=
        byName_eq_none_iff.2 ⟨hnodup, fun e he => ⟨hfields e he, nofun⟩, rfl⟩
      simp [fieldsOf, hnames]
    | array h =>
      have hnames := byPosition_eq_none_iff.2 ⟨_, h, rfl, rfl⟩
      simp [fieldsOf, hnames]
  · rintro ⟨fs, hfs, hnone, rfl⟩
    unfold fieldsOf at hfs
    split at hfs
    · next items =>
      rcases hread : byPosition s.fields items with ⟨entries, problem?⟩
      rw [hread] at hfs
      cases hfs
      cases hnone
      obtain ⟨vs, hle, rfl, rfl⟩ := byPosition_eq_none_iff.1 hread
      exact .array hle
    · next members =>
      rcases hread : byName s.fields [] members with ⟨entries, problem?⟩
      rw [hread] at hfs
      cases hfs
      cases hnone
      obtain ⟨hnodup, hall, rfl⟩ := byName_eq_none_iff.1 hread
      exact .object hnodup fun e he => (hall e he).1
    · cases hfs

theorem Lays.nodup (hs : s.fields.Nodup) (h : s.Lays entries n) :
    (entries.map Prod.fst).Nodup := by
  cases h with
  | object hnodup => exact hnodup
  | array => exact hs.sublist (List.map_fst_zip_sublist _ _)

theorem Lays.mem_fields (h : s.Lays entries n) : ∀ e ∈ entries, e.1 ∈ s.fields := by
  cases h with
  | object _ hfields => exact hfields
  | array => exact fun e he => (List.of_mem_zip he).1

theorem Lays.whole (hs : s.fields.Nodup) (h : s.Lays entries n)
    (hfields : ∀ name ∈ s.fields, ∀ v, OrderedMap.valueIn? name entries = some v → v.Whole) :
    n.Whole := by
  have hentries : ∀ e ∈ entries, e.2.Whole := fun e he =>
    hfields e.1 (h.mem_fields e he) e.2 (OrderedMap.valueIn?_of_mem (h.nodup hs) he)
  cases h with
  | object => exact Members.whole_ofList_iff.2 hentries
  | array h =>
    refine Items.whole_ofList_iff.2 fun v hv => ?_
    rw [← List.map_snd_zip h] at hv
    obtain ⟨e, he, rfl⟩ := List.mem_map.1 hv
    exact hentries e he

end Shape

/-! ## Drafts -/

open OrderedMap (valueIn?)

/-- What a draft holds of one field, and what the node of the field is decoded to. -/
structure DraftPart (δ : Type) where
  {α : Type}
  name : String
  decode : Node → Except DecodeError α
  place : δ → α
  put : δ → α → δ

section DraftParts

variable {δ : Type} {parts : List (DraftPart δ)} {set : δ → String × Node → Except DecodeError δ}
  {entries : List (String × Node)}

/-- What `d'` holds of the field, if it has come from `d` with these entries. -/
def DraftPart.Filled (p : DraftPart δ) (entries : List (String × Node)) (d d' : δ) : Prop :=
  match valueIn? p.name entries with
  | some v => p.decode v = .ok (p.place d')
  | none => p.place d' = p.place d

/-- `set` puts each field in its place, and a draft is what it holds in these places. -/
structure Fills (parts : List (DraftPart δ)) (set : δ → String × Node → Except DecodeError δ) :
    Prop where
  nodup : (parts.map DraftPart.name).Nodup
  set_eq : ∀ p ∈ parts, ∀ d v, set d (p.name, v) = p.put d <$> p.decode v
  place_put : ∀ p ∈ parts, ∀ d a, p.place (p.put d a) = a
  place_put_of_ne : ∀ p ∈ parts, ∀ q ∈ parts, p.name ≠ q.name →
    ∀ d a, p.place (q.put d a) = p.place d
  ext : ∀ d d', (∀ p ∈ parts, p.place d = p.place d') → d = d'

theorem Fills.set_eq_ok_iff (h : Fills parts set) {q : DraftPart δ} (hq : q ∈ parts) {v : Node}
    {d d' : δ} : set d (q.name, v) = .ok d' ↔ ∃ a, q.decode v = .ok a ∧ d' = q.put d a := by
  rw [h.set_eq q hq]
  cases q.decode v <;> simp [eq_comm]

/-- What one field does to a draft. -/
theorem Fills.filled_put (h : Fills parts set) {p q : DraftPart δ} (hp : p ∈ parts)
    (hq : q ∈ parts) {v : Node} {a : q.α} (ha : q.decode v = .ok a) (d : δ) :
    p.Filled [(q.name, v)] d (q.put d a) := by
  unfold DraftPart.Filled
  by_cases hname : q.name = p.name
  · obtain rfl := List.inj_on_of_nodup_map h.nodup hq hp hname
    simpa [valueIn?, h.place_put q hq] using ha
  · simp [valueIn?, hname, h.place_put_of_ne p hp q hq (Ne.symm hname)]

theorem DraftPart.filled_cons {p : DraftPart δ} {e : String × Node} {d d₁ d' : δ}
    (hnew : e.1 ∉ entries.map Prod.fst) (h : p.Filled [e] d d₁) :
    p.Filled (e :: entries) d d' ↔ p.Filled entries d₁ d' := by
  unfold Filled at *
  by_cases hname : e.1 = p.name
  · -- The field is not met again, so the rest leaves it as it is in `d₁`.
    have hnone : valueIn? p.name entries = none := by
      rwa [← Option.not_isSome_iff_eq_none, OrderedMap.isSome_valueIn?, ← hname]
    simp only [valueIn?, if_pos hname] at h ⊢
    rw [hnone, h, Except.ok.injEq, eq_comm]
  · simp only [valueIn?, if_neg hname] at h ⊢
    rw [h]

/-- What all fields together do to a draft, whatever their order. -/
theorem Fills.foldlM_eq_ok_iff (h : Fills parts set) (hnodup : (entries.map Prod.fst).Nodup)
    (hnames : ∀ e ∈ entries, e.1 ∈ parts.map DraftPart.name) {d d' : δ} :
    entries.foldlM set d = .ok d' ↔ ∀ p ∈ parts, p.Filled entries d d' := by
  induction entries generalizing d with
  | nil =>
    constructor
    · intro heq
      cases heq
      exact fun _ _ => rfl
    · intro hfilled
      cases h.ext d' d hfilled
      rfl
  | cons e entries ih =>
    obtain ⟨name, v⟩ := e
    obtain ⟨hnew, hnodup'⟩ := List.nodup_cons.1 hnodup
    obtain ⟨hname, hnames'⟩ := List.forall_mem_cons.1 hnames
    obtain ⟨q, hq, rfl⟩ := List.mem_map.1 hname
    simp only [List.foldlM_cons, Except.bind_eq_ok_iff, ih hnodup' hnames', h.set_eq_ok_iff hq]
    constructor
    · rintro ⟨_, ⟨a, ha, rfl⟩, hfilled⟩ p hp
      exact (DraftPart.filled_cons hnew (h.filled_put hp hq ha d)).2 (hfilled p hp)
    · intro hfilled
      -- The first draft holds in the place of this field what the last one does.
      have ha : q.decode v = .ok (q.place d') := by
        simpa [DraftPart.Filled, valueIn?] using hfilled q hq
      exact ⟨_, ⟨_, ha, rfl⟩, fun p hp =>
        (DraftPart.filled_cons hnew (h.filled_put hp hq ha d)).1 (hfilled p hp)⟩

theorem Fields.decode_eq_ok_iff {fs : Fields} {d d' : δ} :
    fs.decode d (fun d e _ => set d e) = .ok d' ↔
      fs.problem? = none ∧ fs.entries.foldlM set d = .ok d' := by
  have hfold : fs.entries.attach.foldlM (fun d e => set d e.1) d = fs.entries.foldlM set d := by
    rw [← List.foldlM_map, List.attach_map_subtype_val]
  unfold Fields.decode
  simp only [hfold, Except.bind_eq_ok_iff]
  cases fs.problem? <;> simp

theorem Fields.require_eq_ok_iff {α : Type} {fs : Fields} {name : String} {a? : Option α} {a : α} :
    fs.require name a? = .ok a ↔ a? = some a := by
  cases a? <;> simp [Fields.require]

/-- A record is read if its fields are laid out as the parts of its draft. -/
theorem Fills.exists_fields_iff (h : Fills parts set) {s : Shape}
    (hfields : s.fields = parts.map DraftPart.name) {n : Node} {d d' : δ} {Q : δ → Prop}
    (hQ : ∀ d₁, Q d₁ ↔ d₁ = d') :
    (∃ fs, s.fieldsOf n = .ok fs ∧ ∃ d₁, fs.decode d (fun d e _ => set d e) = .ok d₁ ∧ Q d₁) ↔
      ∃ entries, s.Lays entries n ∧ ∀ p ∈ parts, p.Filled entries d d' := by
  have hs : s.fields.Nodup := hfields ▸ h.nodup
  simp only [hQ, exists_eq_right, Fields.decode_eq_ok_iff]
  constructor
  · rintro ⟨fs, hfs, hnone, hfold⟩
    have hlays := Shape.lays_iff.2 ⟨fs, hfs, hnone, rfl⟩
    rw [h.foldlM_eq_ok_iff (hlays.nodup hs) (hfields ▸ hlays.mem_fields)] at hfold
    exact ⟨_, hlays, hfold⟩
  · rintro ⟨entries, hlays, hfilled⟩
    rw [← h.foldlM_eq_ok_iff (hlays.nodup hs) (hfields ▸ hlays.mem_fields)] at hfilled
    obtain ⟨fs, hfs, hnone, rfl⟩ := Shape.lays_iff.1 hlays
    exact ⟨fs, hfs, hnone, hfilled⟩

end DraftParts

/-! ## Fields -/

section FieldForms

variable {α δ : Type} {P : α → Node → Prop} {decode : Node → Except DecodeError α} {name : String}
  {entries : List (String × Node)} {d d' : δ}

/-- The field is there, and `a` is its value. -/
def Required (P : α → Node → Prop) (name : String) (entries : List (String × Node)) (a : α) :
    Prop := ∃ v, valueIn? name entries = some v ∧ P a v

/-- `a` is the value of the field, or the default if the field is left out. -/
def Defaulted (P : α → Node → Prop) (default : α) (name : String)
    (entries : List (String × Node)) (a : α) : Prop :=
  match valueIn? name entries with
  | some v => P a v
  | none => a = default

theorem Defaulted.congr {Q : α → Node → Prop} {default a : α} (h : ∀ v, P a v ↔ Q a v) :
    Defaulted P default name entries a ↔ Defaulted Q default name entries a := by
  simp only [Defaulted, h]

theorem Reads.filled_iff_defaulted (h : Reads decode P) {place : δ → α} {put : δ → α → δ} :
    (⟨name, decode, place, put⟩ : DraftPart δ).Filled entries d d' ↔
      Defaulted P (place d) name entries (place d') := by
  unfold DraftPart.Filled Defaulted
  cases valueIn? name entries <;> simp [h _ _]

theorem Reads.filled_iff_required (h : Reads decode P) {place : δ → Option α}
    {put : δ → Option α → δ} (hd : place d = none) (hd' : place d' ≠ none) :
    (⟨name, fun v => some <$> decode v, place, put⟩ : DraftPart δ).Filled entries d d' ↔
      ∃ a, place d' = some a ∧ Required P name entries a := by
  unfold DraftPart.Filled Required
  cases valueIn? name entries <;> simp [h _ _, hd, hd', Except.map_some_eq_ok_iff]

theorem Required.whole {a : α} (h : Required P name entries a) (hP : ∀ v, P a v → v.Whole) :
    ∀ v, valueIn? name entries = some v → v.Whole := by
  obtain ⟨v, hv, ha⟩ := h
  rintro _ hv'
  cases hv.symm.trans hv'
  exact hP v ha

theorem Defaulted.whole {default a : α} (h : Defaulted P default name entries a)
    (hP : ∀ v, P a v → v.Whole) : ∀ v, valueIn? name entries = some v → v.Whole := by
  intro v hv
  unfold Defaulted at h
  rw [hv] at h
  exact hP v h

end FieldForms

end Json

end QualifiedInference
