-- SUMMARY: What a store holds after any additions, slot by slot, and how little their order matters.
import QualifiedInference.Proofs.Base.List
import QualifiedInference.Proofs.Equivalence
import QualifiedInference.Proofs.Qualifiers
import QualifiedInference.Proofs.Recording
/-!
# What a store accumulates

A store starts with empty records and takes additions one at a time. Each slot of a record is
then told by the additions of its own relation alone: related targets, types and bounds gather
all that was given for them (`OrderedMap.Gathers`), an exact qualifier is the first one given
(`OrderedMap.KeepsFirst`). Gathering does not depend on the order, and the first of equals
neither, so the order and the repetition of additions show in the order of the entries only.
-/

namespace QualifiedInference

/-! ## Gathering maps -/

namespace OrderedMap

variable {κ α : Type} [DecidableEq κ]

/-- The map has the keys given, in the order of their first mention, and at each of them the
    union of the sets given with it. -/
structure Gathers (m : OrderedMap κ Qualifiers) (given : List (κ × Qualifiers)) : Prop where
  keys : m.keys = (given.map Prod.fst).eraseDups
  mem_iff : ∀ k qs, m.get? k = some qs → ∀ q, q ∈ qs ↔ ∃ e ∈ given, e.1 = k ∧ q ∈ e.2

/-- The map has the keys given, in the order of their first mention, and at each of them the
    value given with it first. -/
structure KeepsFirst (m : OrderedMap κ α) (given : List (κ × α)) : Prop where
  keys : m.keys = (given.map Prod.fst).eraseDups
  get?_eq : ∀ k, m.get? k = valueIn? k given

/-- Adds to the set at each key given. -/
def gather (m : OrderedMap κ Qualifiers) (given : List (κ × Qualifiers)) :
    OrderedMap κ Qualifiers :=
  given.foldl (fun m e => m.upsert e.1 fun old => (old.getD ∅).union e.2) m

/-- Puts the values given at the keys that have none. -/
def keepFirst (m : OrderedMap κ α) (given : List (κ × α)) : OrderedMap κ α :=
  given.foldl (fun m e => m.insertIfNew e.1 e.2) m

theorem keys_upsert_eraseDups {m : OrderedMap κ α} {given : List (κ × α)}
    (h : m.keys = (given.map Prod.fst).eraseDups) (e : κ × α) (f : Option α → α) :
    (m.upsert e.1 f).keys = ((given ++ [e]).map Prod.fst).eraseDups := by
  have hmem : e.1 ∈ m ↔ e.1 ∈ given.map Prod.fst := by rw [mem_def, h, List.mem_eraseDups]
  rw [keys_upsert, List.map_append, List.map_singleton, List.eraseDups_concat, h]
  exact if_congr hmem rfl rfl

variable {m n : OrderedMap κ Qualifiers} {given given' : List (κ × Qualifiers)}

theorem Gathers.empty : (∅ : OrderedMap κ Qualifiers).Gathers [] := ⟨rfl, nofun⟩

theorem Gathers.upsert (h : m.Gathers given) (e : κ × Qualifiers) :
    (m.upsert e.1 fun old => (old.getD ∅).union e.2).Gathers (given ++ [e]) where
  keys := keys_upsert_eraseDups h.keys e _
  mem_iff k qs hget q := by
    rw [get?_upsert] at hget
    split at hget
    · next hk =>
      subst hk
      cases hget
      have hold : q ∈ (m.get? e.1).getD ∅ ↔ ∃ e' ∈ given, e'.1 = e.1 ∧ q ∈ e'.2 := by
        cases hm : m.get? e.1 with
        | some old => exact h.mem_iff e.1 old hm q
        | none =>
          -- A key without a set has not been given.
          have hnot : e.1 ∉ m.keys := by
            rw [← mem_def, ← isSome_get?, hm]
            exact Bool.false_ne_true
          rw [h.keys, List.mem_eraseDups] at hnot
          refine iff_of_false List.not_mem_nil ?_
          rintro ⟨e', he', hk, -⟩
          exact hnot (hk ▸ List.mem_map_of_mem he')
      rw [Qualifiers.mem_union, hold]
      simp only [List.mem_append, List.mem_singleton]
      grind
    · next hk =>
      rw [h.mem_iff k qs hget q]
      simp only [List.mem_append, List.mem_singleton]
      grind

theorem Gathers.gather (h : m.Gathers given) (more : List (κ × Qualifiers)) :
    (m.gather more).Gathers (given ++ more) := by
  induction more generalizing m given with
  | nil => simpa [OrderedMap.gather] using h
  | cons e more ih => simpa [OrderedMap.gather] using ih (h.upsert e)

/-- Reads off the sets: a key given has all that was given with it and nothing else. -/
theorem Gathers.get?_eq_some_iff (h : m.Gathers given) {k : κ} {qs : Qualifiers} :
    m.get? k = some qs ↔
      (∃ e ∈ given, e.1 = k) ∧ ∀ q, q ∈ qs ↔ ∃ e ∈ given, e.1 = k ∧ q ∈ e.2 := by
  have hkey : (m.get? k).isSome ↔ ∃ e ∈ given, e.1 = k := by
    rw [isSome_get?, mem_def, h.keys, List.mem_eraseDups, List.mem_map]
  constructor
  · intro hget
    exact ⟨hkey.1 (hget ▸ rfl), h.mem_iff k qs hget⟩
  · rintro ⟨hgiven, hqs⟩
    obtain ⟨qs', hget⟩ := Option.isSome_iff_exists.1 (hkey.2 hgiven)
    rw [hget, Qualifiers.ext_mem fun q => (h.mem_iff k qs' hget q).trans (hqs q).symm]

theorem Gathers.equiv (h : m.Gathers given) (h' : n.Gathers given')
    (hsame : ∀ e, e ∈ given ↔ e ∈ given') : m.Equiv n := by
  intro k
  refine Option.ext fun qs => ?_
  simp only [h.get?_eq_some_iff, h'.get?_eq_some_iff, hsame]

variable {f g : OrderedMap κ α} {first first' : List (κ × α)}

theorem KeepsFirst.empty : (∅ : OrderedMap κ α).KeepsFirst [] := ⟨rfl, fun _ => rfl⟩

theorem valueIn?_concat (k : κ) (es : List (κ × α)) (e : κ × α) :
    valueIn? k (es ++ [e]) = (valueIn? k es).or (if e.1 = k then some e.2 else none) := by
  induction es with
  | nil => rfl
  | cons e' es ih => by_cases h : e'.1 = k <;> simp [valueIn?, h, ih]

theorem KeepsFirst.insertIfNew (h : f.KeepsFirst first) (e : κ × α) :
    (f.insertIfNew e.1 e.2).KeepsFirst (first ++ [e]) where
  keys := keys_upsert_eraseDups h.keys e _
  get?_eq k := by
    rw [OrderedMap.insertIfNew, get?_upsert, h.get?_eq, h.get?_eq, valueIn?_concat]
    split
    · next hk =>
      subst hk
      rw [if_pos rfl]
      cases valueIn? e.1 first <;> rfl
    · next hk => rw [if_neg (Ne.symm hk), Option.or_none]

theorem KeepsFirst.keepFirst (h : f.KeepsFirst first) (more : List (κ × α)) :
    (f.keepFirst more).KeepsFirst (first ++ more) := by
  induction more generalizing f first with
  | nil => simpa [OrderedMap.keepFirst] using h
  | cons e more ih => simpa [OrderedMap.keepFirst] using ih (h.insertIfNew e)

theorem mem_of_valueIn? {es : List (κ × α)} {k : κ} {a : α} (h : valueIn? k es = some a) :
    (k, a) ∈ es := by
  induction es with
  | nil => cases h
  | cons e es ih =>
    unfold valueIn? at h
    split at h
    · next hk => cases hk; cases h; exact .head _
    · exact .tail _ (ih h)

/-- Where each key is given with one value only, it does not matter which comes first. -/
theorem valueIn?_eq_some_iff {es : List (κ × α)}
    (hes : ∀ e ∈ es, ∀ e' ∈ es, e.1 = e'.1 → e.2 = e'.2) {k : κ} {a : α} :
    valueIn? k es = some a ↔ (k, a) ∈ es := by
  constructor
  · exact mem_of_valueIn?
  · intro h
    have hsome : (valueIn? k es).isSome := (isSome_valueIn? k es).2 (List.mem_map.2 ⟨_, h, rfl⟩)
    obtain ⟨a', ha'⟩ := Option.isSome_iff_exists.1 hsome
    obtain rfl : a' = a := hes _ (mem_of_valueIn? ha') _ h rfl
    exact ha'

theorem KeepsFirst.equiv (h : f.KeepsFirst first) (h' : g.KeepsFirst first')
    (hsame : ∀ e, e ∈ first ↔ e ∈ first')
    (hone : ∀ e ∈ first, ∀ e' ∈ first, e.1 = e'.1 → e.2 = e'.2) : f.Equiv g := by
  have hone' : ∀ e ∈ first', ∀ e' ∈ first', e.1 = e'.1 → e.2 = e'.2 :=
    fun e he e' he' => hone e ((hsame e).2 he) e' ((hsame e').2 he')
  intro k
  refine Option.ext fun a => ?_
  rw [h.get?_eq, h'.get?_eq, valueIn?_eq_some_iff hone, valueIn?_eq_some_iff hone', hsame]

end OrderedMap

/-! ## Additions -/

/-- A call that adds to a store: which target is in which relation to what. The order tells the
    tops of bare qualifiers. -/
structure Addition where
  order : QualifierOrder
  target : Target
  relation : Relation
  operand : Operand

namespace Addition

/-- The target given, with the tops given with it. -/
def targets (a : Addition) : List (Target × Qualifiers) :=
  match a.operand with
  | .target other tops => [(other, tops)]
  | _ => []

/-- The type given, with the tops given with it. -/
def types (a : Addition) : List (Ty × Qualifiers) :=
  match a.operand with
  | .type ty tops => [(ty, tops)]
  | _ => []

/-- The bare qualifiers given, in their order, under the tops of their hierarchies. -/
def exact (a : Addition) : List (Qualifier × Qualifier) :=
  match a.operand with
  | .qualifiers qs => qs.toList.map fun q => (a.order.top q, q)
  | _ => []

/-- The same as bounds, each a set of its own. -/
def bounds (a : Addition) : List (Qualifier × Qualifiers) :=
  a.exact.map fun e => (e.1, .singleton e.2)

/-- The additions to a target in a relation. -/
def about (t : Target) (rel : Relation) (as : List Addition) : List Addition :=
  as.filter fun a => a.target = t ∧ a.relation = rel

theorem mem_about {t : Target} {rel : Relation} {as : List Addition} {a : Addition} :
    a ∈ about t rel as ↔ a ∈ as ∧ a.target = t ∧ a.relation = rel := by
  simp [about]

variable {β : Type}

theorem flatMap_about_concat (f : Addition → List β) (rel : Relation) (as : List Addition)
    (a : Addition) :
    (about a.target rel (as ++ [a])).flatMap f =
      (about a.target rel as).flatMap f ++ if a.relation = rel then f a else [] := by
  by_cases h : a.relation = rel <;> simp [about, h]

theorem about_concat_of_ne {t : Target} {a : Addition} (h : a.target ≠ t) (rel : Relation)
    (as : List Addition) : about t rel (as ++ [a]) = about t rel as := by
  simp [about, h]

end Addition

namespace Relations

theorem primaries_addExact (rel : Relations Qualifier) (order : QualifierOrder) (qs : Qualifiers) :
    (rel.addExact order qs).primaries =
      rel.primaries.keepFirst (qs.toList.map fun q => (order.top q, q)) := by
  rw [OrderedMap.keepFirst, List.foldl_map]
  rfl

theorem primaries_addBounds (rel : Relations Qualifiers) (order : QualifierOrder)
    (qs : Qualifiers) :
    (rel.addBounds order qs).primaries =
      rel.primaries.gather ((qs.toList.map fun q => (order.top q, q)).map
        fun e => (e.1, .singleton e.2)) := by
  rw [OrderedMap.gather, List.map_map, List.foldl_map]
  rfl

end Relations

/-! ## Records -/

namespace Record

open Addition

/-- Each slot of the record of `t` tells what the additions gave for it. -/
structure Accumulates (r : Record) (t : Target) (as : List Addition) : Prop where
  target : r.target = t
  targets : ∀ rel, (r.targetsIn rel).Gathers ((about t rel as).flatMap Addition.targets)
  types : ∀ rel, (r.typesIn rel).Gathers ((about t rel as).flatMap Addition.types)
  exact : r.equalities.primaries.KeepsFirst ((about t .equal as).flatMap Addition.exact)
  above : r.subtypes.primaries.Gathers ((about t .subtype as).flatMap bounds)
  below : r.supertypes.primaries.Gathers ((about t .supertype as).flatMap bounds)

variable (r : Record) (a : Addition)

/-- What an addition makes of a record. -/
def accept : Record := r.relate a.order a.relation a.operand

theorem target_accept : (r.accept a).target = r.target := by
  obtain ⟨order, t, rel, operand⟩ := a
  cases operand <;> cases rel <;> rfl

theorem targetsIn_accept (rel : Relation) :
    (r.accept a).targetsIn rel =
      (r.targetsIn rel).gather (if a.relation = rel then a.targets else []) := by
  obtain ⟨order, t, rel', operand⟩ := a
  cases operand <;> cases rel' <;> cases rel <;> rfl

theorem typesIn_accept (rel : Relation) :
    (r.accept a).typesIn rel =
      (r.typesIn rel).gather (if a.relation = rel then a.types else []) := by
  obtain ⟨order, t, rel', operand⟩ := a
  cases operand <;> cases rel' <;> cases rel <;> rfl

theorem exact_accept :
    (r.accept a).equalities.primaries =
      r.equalities.primaries.keepFirst (if a.relation = .equal then a.exact else []) := by
  obtain ⟨order, t, rel, operand⟩ := a
  cases operand with
  | qualifiers qs => cases rel <;> first | rfl | exact Relations.primaries_addExact _ order qs
  | _ => cases rel <;> rfl

theorem above_accept :
    (r.accept a).subtypes.primaries =
      r.subtypes.primaries.gather (if a.relation = .subtype then a.bounds else []) := by
  obtain ⟨order, t, rel, operand⟩ := a
  cases operand with
  | qualifiers qs => cases rel <;> first | rfl | exact Relations.primaries_addBounds _ order qs
  | _ => cases rel <;> rfl

theorem below_accept :
    (r.accept a).supertypes.primaries =
      r.supertypes.primaries.gather (if a.relation = .supertype then a.bounds else []) := by
  obtain ⟨order, t, rel, operand⟩ := a
  cases operand with
  | qualifiers qs => cases rel <;> first | rfl | exact Relations.primaries_addBounds _ order qs
  | _ => cases rel <;> rfl

variable {r r' : Record} {a : Addition} {t : Target} {as as' : List Addition}

theorem Accumulates.new (t : Target) : (Record.new t).Accumulates t [] where
  target := rfl
  targets rel := by cases rel <;> exact .empty
  types rel := by cases rel <;> exact .empty
  exact := .empty
  above := .empty
  below := .empty

theorem Accumulates.accept (h : r.Accumulates a.target as) :
    (r.accept a).Accumulates a.target (as ++ [a]) where
  target := (r.target_accept a).trans h.target
  targets rel := by
    rw [targetsIn_accept, flatMap_about_concat]
    exact (h.targets rel).gather _
  types rel := by
    rw [typesIn_accept, flatMap_about_concat]
    exact (h.types rel).gather _
  exact := by
    rw [exact_accept, flatMap_about_concat]
    exact h.exact.keepFirst _
  above := by
    rw [above_accept, flatMap_about_concat]
    exact h.above.gather _
  below := by
    rw [below_accept, flatMap_about_concat]
    exact h.below.gather _

/-- An addition to another target is none to this one. -/
theorem Accumulates.concat_of_ne (h : r.Accumulates t as) (hne : a.target ≠ t) :
    r.Accumulates t (as ++ [a]) where
  target := h.target
  targets rel := about_concat_of_ne hne rel as ▸ h.targets rel
  types rel := about_concat_of_ne hne rel as ▸ h.types rel
  exact := about_concat_of_ne hne .equal as ▸ h.exact
  above := about_concat_of_ne hne .subtype as ▸ h.above
  below := about_concat_of_ne hne .supertype as ▸ h.below

/-- No two exact qualifiers of the target are given for one hierarchy. -/
def Unambiguous (t : Target) (as : List Addition) : Prop :=
  ∀ e ∈ (about t .equal as).flatMap Addition.exact,
    ∀ e' ∈ (about t .equal as).flatMap Addition.exact, e.1 = e'.1 → e.2 = e'.2

instance (t : Target) (as : List Addition) : Decidable (Unambiguous t as) := by
  unfold Unambiguous
  infer_instance

/-- Neither the order of the additions nor their repetition matters. -/
theorem Accumulates.equiv (h : r.Accumulates t as) (h' : r'.Accumulates t as')
    (hsame : ∀ a, a ∈ as ↔ a ∈ as') (hone : Unambiguous t as) : r.equiv r' = true := by
  have hgiven : ∀ {β : Type} (f : Addition → List β) (rel : Relation) (e : β),
      e ∈ (about t rel as).flatMap f ↔ e ∈ (about t rel as').flatMap f := by
    intro β f rel e
    simp only [List.mem_flatMap, mem_about, hsame]
  have htargets (rel : Relation) := (h.targets rel).equiv (h'.targets rel) (hgiven _ rel)
  have htypes (rel : Relation) := (h.types rel).equiv (h'.types rel) (hgiven _ rel)
  simp only [Record.equiv, Relations.equiv, Bool.and_eq_true, beq_iff_eq, OrderedMap.equiv_iff,
    h.target, h'.target, true_and]
  exact ⟨⟨⟨⟨htargets .equal, htypes .equal⟩, h.exact.equiv h'.exact (hgiven _ _) hone⟩,
      ⟨htargets .subtype, htypes .subtype⟩, h.above.equiv h'.above (hgiven _ _)⟩,
    ⟨htargets .supertype, htypes .supertype⟩, h.below.equiv h'.below (hgiven _ _)⟩

end Record

/-! ## Stores -/

namespace Store

/-- The store after an addition. One that fails leaves it as it is. -/
def accept (s : Store) (a : Addition) : Store :=
  match s.add a.order a.target a.relation a.operand with
  | .ok s' => s'
  | .error _ => s

def acceptAll (s : Store) (as : List Addition) : Store := as.foldl accept s

/-- The store is of the targets listed, each once, and its records tell the additions. -/
structure Accumulates (s : Store) (ts : List Target) (as : List Addition) : Prop where
  targets : s.targets = ts.eraseDups
  records : ∀ t ∈ ts, ∃ r, s.record? t = some r ∧ r.Accumulates t as

variable {s s' : Store} {targets : List Target} {a : Addition} {as as' : List Addition}

theorem targets_new (branch : Nat) (ts : List Target) :
    (Store.new branch ts).targets = ts.eraseDups := by
  have hkeys : (ts.map fun t => (t, Slot.mk (.new t) ⟨branch, 0⟩)).map Prod.fst = ts := by
    simp [Function.comp_def]
  rw [targets, new, TargetMap.keys_ofList, hkeys]

theorem Accumulates.new (branch : Nat) (targets : List Target) :
    (Store.new branch targets).Accumulates targets [] where
  targets := targets_new branch targets
  records t ht := ⟨.new t, by rw [record?_new, if_pos ht], .new t⟩

theorem add_of_not_mem {order : QualifierOrder} {t : Target} (ht : t ∉ s.targets) (rel : Relation)
    (operand : Operand) : s.add order t rel operand = .error (.unknownTarget t) :=
  if_neg fun h => ht (contains_iff.1 h)

theorem accept_of_not_mem (ha : a.target ∉ s.targets) : s.accept a = s := by
  rw [accept, add_of_not_mem ha]

theorem accept_of_mem (ha : a.target ∈ s.targets) :
    s.accept a = s.write a.target fun r => r.accept a := by
  rw [accept, add, if_pos (contains_iff.2 ha)]
  rfl

theorem Accumulates.accept (h : s.Accumulates targets as) (a : Addition) :
    (s.accept a).Accumulates targets (as ++ [a]) := by
  have hmem : a.target ∈ s.targets ↔ a.target ∈ targets := by rw [h.targets, List.mem_eraseDups]
  by_cases ha : a.target ∈ targets
  · rw [accept_of_mem (hmem.2 ha)]
    refine ⟨(targets_write s _ _).trans h.targets, fun t ht => ?_⟩
    obtain ⟨r, hr, hacc⟩ := h.records t ht
    rw [record?_write]
    split
    · next hta =>
      subst hta
      exact ⟨r.accept a, by rw [hr]; rfl, hacc.accept⟩
    · next hta => exact ⟨r, hr, hacc.concat_of_ne (Ne.symm hta)⟩
  · rw [accept_of_not_mem (mt hmem.1 ha)]
    refine ⟨h.targets, fun t ht => ?_⟩
    obtain ⟨r, hr, hacc⟩ := h.records t ht
    exact ⟨r, hr, hacc.concat_of_ne fun heq => ha (heq ▸ ht)⟩

theorem accumulates_acceptAll (branch : Nat) (targets : List Target) (as : List Addition) :
    ((Store.new branch targets).acceptAll as).Accumulates targets as := by
  induction as using List.reverseRecOn with
  | nil => exact .new branch targets
  | append_singleton as a ih =>
    rw [acceptAll, List.foldl_append]
    exact ih.accept a

/-- The targets stay those the store was made of, and an addition to any other one fails and
    changes nothing. Each slot of a record tells what was given for it, so additions with the same
    members make equal records, unless two exact qualifiers compete. -/
theorem accumulates_only_additions (branch : Nat) (targets : List Target) (as : List Addition) :
    let s := (Store.new branch targets).acceptAll as
    s.targets = targets.eraseDups ∧
    (∀ t ∈ targets, ∃ r, s.record? t = some r ∧ r.Accumulates t as) ∧
    (∀ a, a.target ∉ targets →
      s.add a.order a.target a.relation a.operand = .error (.unknownTarget a.target) ∧
        s.accept a = s) ∧
    ∀ branch' as', (∀ a, a ∈ as' ↔ a ∈ as) → ∀ t ∈ targets, Record.Unambiguous t as →
      ∃ r r', s.record? t = some r ∧
        ((Store.new branch' targets).acceptAll as').record? t = some r' ∧ r.equiv r' = true := by
  intro s
  have hs : s.Accumulates targets as := accumulates_acceptAll branch targets as
  refine ⟨hs.targets, hs.records, fun a ha => ?_, fun branch' as' hsame t ht hone => ?_⟩
  · have ha' : a.target ∉ s.targets := by rwa [hs.targets, List.mem_eraseDups]
    exact ⟨add_of_not_mem ha' _ _, accept_of_not_mem ha'⟩
  · obtain ⟨r, hr, hacc⟩ := hs.records t ht
    obtain ⟨r', hr', hacc'⟩ := (accumulates_acceptAll branch' targets as').records t ht
    exact ⟨r, r', hr, hr', hacc.equiv hacc' (fun a => (hsame a).symm) hone⟩

/-- Two bounds in one hierarchy, an exact qualifier in another, and a target to itself. -/
def mixedAdditions : List Addition :=
  [⟨.chains, ⟨1⟩, .subtype, .qualifiers (.ofList [⟨0, 1⟩, ⟨0, 0⟩])⟩,
    ⟨.chains, ⟨1⟩, .equal, .qualifiers (.singleton ⟨1, 1⟩)⟩,
    ⟨.chains, ⟨1⟩, .equal, .target ⟨1⟩ ∅⟩,
    ⟨.chains, ⟨1⟩, .supertype, .type (.null ∅) (.singleton ⟨0, 0⟩)⟩]

theorem accumulates_only_mixedAdditions :
    let s := (Store.new 0 [⟨1⟩, ⟨2⟩, ⟨1⟩]).acceptAll mixedAdditions
    s.add .chains ⟨3⟩ .equal (.target ⟨1⟩ ∅) = .error (.unknownTarget ⟨3⟩) ∧
    Record.Unambiguous ⟨1⟩ mixedAdditions ∧
    ∃ r r', s.record? ⟨1⟩ = some r ∧
      ((Store.new 4 [⟨1⟩, ⟨2⟩, ⟨1⟩]).acceptAll
        (mixedAdditions.reverse ++ mixedAdditions)).record? ⟨1⟩ = some r' ∧ r.equiv r' = true := by
  have hone : Record.Unambiguous ⟨1⟩ mixedAdditions := by decide
  have hs := accumulates_only_additions 0 [⟨1⟩, ⟨2⟩, ⟨1⟩] mixedAdditions
  exact ⟨(hs.2.2.1 ⟨.chains, ⟨3⟩, .equal, .target ⟨1⟩ ∅⟩ (by decide)).1, hone,
    hs.2.2.2 4 _ (fun a => by simp) ⟨1⟩ (by decide) hone⟩

end Store

end QualifiedInference
