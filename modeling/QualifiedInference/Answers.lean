-- SUMMARY: Answers to inference targets, types or aliases of other targets, and the collapse of alias chains.
import QualifiedInference.TargetMap
import QualifiedInference.Ty
/-!
# Answers

What has been inferred about each target so far, in the order of the first answer: a type,
or the name of another target that it equals, with qualifiers to lay over the type of that
target once it is known. `collapse` replaces every alias whose chain ends in a type.
-/

namespace QualifiedInference

inductive Answer where
  | type (ty : Ty)
  /-- Equal to `pointee`, with the qualifiers `extra` laid over its type. -/
  | alias (pointee : Target) (extra : Qualifiers)
deriving DecidableEq

namespace Answer

def type? : Answer → Option Ty
  | .type ty => some ty
  | .alias .. => none

def isType : Answer → Bool
  | .type _ => true
  | .alias .. => false

end Answer

abbrev Answers := TargetMap Answer

namespace Answers

/-- The type inferred for a target. -/
def typeOf? (r : Answers) (t : Target) : Option Ty := (r.get? t).bind Answer.type?

theorem typeOf?_eq_some {r : Answers} {t : Target} {ty : Ty} :
    r.typeOf? t = some ty ↔ r.get? t = some (.type ty) := by
  unfold typeOf?
  cases r.get? t with
  | none => simp
  | some a => cases a <;> simp [Answer.type?]

theorem typeOf?_empty_ne_some {t : Target} {ty : Ty} : (∅ : Answers).typeOf? t ≠ some ty := nofun

theorem typeOf?_of_get?_alias {r : Answers} {t p : Target} {extra : Qualifiers}
    (h : r.get? t = some (.alias p extra)) : r.typeOf? t = none := by
  simp [typeOf?, h, Answer.type?]

theorem typeOf?_of_not_mem {r : Answers} {t : Target} (h : t ∉ r) : r.typeOf? t = none := by
  simp [typeOf?, TargetMap.get?_eq_none_iff.2 h]

theorem typeOf?_insert (r : Answers) (t u : Target) (ty : Ty) :
    typeOf? (r.insert t (.type ty)) u = if u = t then some ty else r.typeOf? u := by
  unfold typeOf?
  simp only [TargetMap.get?_insert]
  split <;> rfl

/-- The targets among `all` that have no answer, each once. With `typesOnly` an alias is
    no answer. -/
def remaining (r : Answers) (all : List Target) (typesOnly : Bool) : List Target :=
  (all.filter fun t =>
    match r.get? t with
    | none => true
    | some a => typesOnly && !a.isType).eraseDups

/-- The target has a type other than the null type, which is no valid type argument. -/
def isFinal (r : Answers) (t : Target) : Bool := (r.typeOf? t).any fun ty => !ty.isNull

theorem isFinal_iff {r : Answers} {t : Target} :
    r.isFinal t = true ↔ ∃ ty, r.typeOf? t = some ty ∧ ty.isNull = false := by
  simp [isFinal, Option.any_eq_true]

def isComplete (r : Answers) (all : List Target) : Bool := all.all r.isFinal

def keepType? (e : Target × Answer) : Option (Target × Ty) := e.2.type?.map (e.1, ·)

theorem map_fst_filterMap_keepType?_sublist (es : List (Target × Answer)) :
    ((es.filterMap keepType?).map Prod.fst).Sublist (es.map Prod.fst) := by
  induction es with
  | nil => exact .slnil
  | cons e rest ih =>
    obtain ⟨t, a⟩ := e
    cases a with
    | type ty => exact ih.cons_cons t
    | «alias» p extra => exact ih.cons t

/-- The answers that are types. -/
def types (r : Answers) : OrderedMap Target Ty :=
  ⟨r.entries.filterMap keepType?,
    (map_fst_filterMap_keepType?_sublist r.entries).nodup r.nodup_keys⟩

/-! ## Collapsing alias chains -/

/-- Turns an entry that is an alias of a target with a type into a type. The flag tells
    whether some entry was turned. -/
def collapseEntry (acc : Answers × Bool) (e : Target × Answer) : Answers × Bool :=
  match e.2 with
  | .type _ => acc
  | .alias pointee extra =>
    match acc.1.typeOf? pointee with
    | none => acc
    | some ty => (acc.1.insert e.1 (.type (ty.overlay extra)), true)

/-- Visits every entry once, in order. What one entry became is seen by those after it. -/
def collapsePass (r : Answers) : Answers × Bool := r.entries.foldl collapseEntry (r, false)

theorem collapseEntry_of_none {acc : Answers × Bool} {t p : Target} {extra : Qualifiers}
    (h : acc.1.typeOf? p = none) : collapseEntry acc (t, .alias p extra) = acc := by
  simp [collapseEntry, h]

theorem collapseEntry_of_some {acc : Answers × Bool} {t p : Target} {extra : Qualifiers} {ty : Ty}
    (h : acc.1.typeOf? p = some ty) : collapseEntry acc (t, .alias p extra) =
      (acc.1.insert t (.type (ty.overlay extra)), true) := by
  simp [collapseEntry, h]

/-- Turning one entry leaves those behind it as they are. -/
theorem get?_insert_of_not_mem {r : Answers} {t : Target} {es : List (Target × Answer)}
    (ht : t ∉ es.map Prod.fst) (h : ∀ e ∈ es, r.get? e.1 = some e.2) (a : Answer) :
    ∀ e ∈ es, (r.insert t a).get? e.1 = some e.2 := by
  intro e he
  have hne : e.1 ≠ t := fun h' => ht (List.mem_map.2 ⟨e, he, h'⟩)
  rw [TargetMap.get?_insert, if_neg hne]
  exact h e he

def aliasCount (r : Answers) : Nat := r.entries.countP fun e => !e.2.isType

theorem countP_upsertEntries_lt {es : List (Target × Answer)} {t p : Target} {extra : Qualifiers}
    {ty : Ty} (h : OrderedMap.valueIn? t es = some (.alias p extra)) :
    (OrderedMap.upsertEntries t (fun _ => .type ty) es).countP (fun e => !e.2.isType) <
      es.countP fun e => !e.2.isType := by
  induction es with
  | nil => cases h
  | cons e rest ih =>
    obtain ⟨t', a⟩ := e
    unfold OrderedMap.valueIn? at h
    unfold OrderedMap.upsertEntries
    split at h
    · next ht =>
      cases h
      simp [ht, Answer.isType]
    · next ht =>
      simp only [if_neg ht, List.countP_cons]
      exact Nat.add_lt_add_right (ih h) _

theorem aliasCount_insert_lt {r : Answers} {t p : Target} {extra : Qualifiers} {ty : Ty}
    (h : r.get? t = some (.alias p extra)) : aliasCount (r.insert t (.type ty)) < r.aliasCount := by
  simp only [← TargetMap.get?_toOrdered] at h
  simp only [aliasCount, TargetMap.entries_insert]
  exact countP_upsertEntries_lt h

theorem foldl_collapseEntry {es : List (Target × Answer)} (hes : (es.map Prod.fst).Nodup)
    (acc : Answers × Bool) (h : ∀ e ∈ es, acc.1.get? e.1 = some e.2) :
    es.foldl collapseEntry acc = acc ∨
      (es.foldl collapseEntry acc).1.aliasCount < acc.1.aliasCount := by
  induction es generalizing acc with
  | nil => exact Or.inl rfl
  | cons e rest ih =>
    obtain ⟨t, a⟩ := e
    simp only [List.map_cons, List.nodup_cons] at hes
    simp only [List.foldl_cons]
    have hrest : ∀ e ∈ rest, acc.1.get? e.1 = some e.2 := fun e he => h e (.tail _ he)
    cases a with
    | type ty => exact ih hes.2 acc hrest
    | «alias» p extra =>
      cases hp : acc.1.typeOf? p with
      | none =>
        rw [collapseEntry_of_none hp]
        exact ih hes.2 acc hrest
      | some ty =>
        have hlt : aliasCount (acc.1.insert t (.type (ty.overlay extra))) < acc.1.aliasCount :=
          aliasCount_insert_lt (h _ (.head _))
        have hnext := get?_insert_of_not_mem hes.1 hrest (.type (ty.overlay extra))
        rw [collapseEntry_of_some hp]
        apply Or.inr
        have hih := ih hes.2 (acc.1.insert t (.type (ty.overlay extra)), true) hnext
        cases hih with
        | inl he => rwa [he]
        | inr he => exact Nat.lt_trans he hlt

theorem aliasCount_collapsePass {r r' : Answers} (h : r.collapsePass = (r', true)) :
    r'.aliasCount < r.aliasCount := by
  rcases foldl_collapseEntry r.nodup_keys (r, false) fun _ he =>
    TargetMap.get?_of_mem_entries he with he | he
  · have : (r, false) = (r', true) := he.symm.trans h
    simp at this
  · have : (r.collapsePass).1.aliasCount < r.aliasCount := he
    rwa [h] at this

/-- Passes over the answers until one turns nothing. An alias whose chain never reaches a
    type stays as it is. -/
def collapse (r : Answers) : Answers :=
  match _h : r.collapsePass with
  | (r', true) => r'.collapse
  | (r', false) => r'
termination_by r.aliasCount
decreasing_by exact aliasCount_collapsePass _h

end Answers

end QualifiedInference
