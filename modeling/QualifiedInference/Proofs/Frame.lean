-- SUMMARY: What a strategy may write into a store, and what it leaves alone.
import QualifiedInference.Proofs.Bounds.Attempt
import QualifiedInference.Proofs.Equalities.Evidence
import QualifiedInference.Proofs.Noninterference.Replacement
/-!
# What a strategy may write

All that a run writes are types, in the one relation that its strategy reads, into the records of
targets that are not settled. Each of them is known, at some time of the run, of a target in that
relation, and comes with the tops that this target is recorded with. Nothing that was recorded is
moved or taken away. An attempt over equalities keeps to this, and so does one over bounds
(`confined_attempt`), hence every pass and the whole run (`BuiltIn.solve_confined`).
-/

namespace QualifiedInference

/-! ## Growing maps -/

namespace OrderedMap

variable {κ : Type} [DecidableEq κ]

/-- The keys of `m` keep their places in `m'` and their sets grow at most; keys and members that are
    new come from a set that is given for the key. -/
structure Grows (given : κ → Qualifiers → Prop) (m m' : OrderedMap κ Qualifiers) : Prop where
  order : m.keys <+: m'.keys
  kept : ∀ k qs, m.get? k = some qs → ∃ qs', m'.get? k = some qs' ∧ ∀ q ∈ qs, q ∈ qs'
  new : ∀ k ∈ m', k ∉ m → ∃ qs, given k qs
  gained : ∀ k qs', m'.get? k = some qs' → ∀ q ∈ qs',
    (∃ qs, m.get? k = some qs ∧ q ∈ qs) ∨ ∃ qs, given k qs ∧ q ∈ qs

namespace Grows

variable {given given' : κ → Qualifiers → Prop} {m m' : OrderedMap κ Qualifiers} {k : κ}
  {qs : Qualifiers}

theorem refl (m : OrderedMap κ Qualifiers) : m.Grows given m where
  order := List.prefix_rfl
  kept _ qs hget := ⟨qs, hget, fun _ => id⟩
  new _ hmem hnot := absurd hmem hnot
  gained _ qs' hget _ hq := .inl ⟨qs', hget, hq⟩

theorem mono (h : m.Grows given m') (himp : ∀ k qs, given k qs → given' k qs) :
    m.Grows given' m' where
  order := h.order
  kept := h.kept
  new k hmem hnot := (h.new k hmem hnot).imp fun qs => himp k qs
  gained k qs' hget q hq := (h.gained k qs' hget q hq).imp_right fun ⟨qs, hqs, hq⟩ =>
    ⟨qs, himp k qs hqs, hq⟩

/-- A set that is given for a key is added to the one that the key has. -/
theorem upsert (h : m.Grows given m') (hgiven : given k qs) :
    m.Grows given (m'.upsert k fun old => (old.getD ∅).union qs) where
  order := by
    rw [keys_upsert]
    split
    · exact h.order
    · exact h.order.trans (List.prefix_append ..)
  kept k' old hget := by
    obtain ⟨old', hget', hsub⟩ := h.kept k' old hget
    rw [get?_upsert]
    split
    · next hk =>
      rw [← hk, hget']
      exact ⟨_, rfl, fun q hq => Qualifiers.mem_union.2 (.inl (hsub q hq))⟩
    · exact ⟨old', hget', hsub⟩
  new k' hmem hnot := by
    by_cases hk : k' = k
    · exact ⟨qs, hk ▸ hgiven⟩
    · rw [← isSome_get?, get?_upsert, if_neg hk, isSome_get?] at hmem
      exact h.new k' hmem hnot
  gained k' qs' hget q hq := by
    rw [get?_upsert] at hget
    split at hget
    · next hk =>
      subst hk
      cases hget
      rcases Qualifiers.mem_union.1 hq with hq | hq
      · cases hold : m'.get? k' with
        | none =>
          rw [hold] at hq
          cases hq
        | some old =>
          rw [hold] at hq
          exact h.gained k' old hold q hq
      · exact .inr ⟨qs, hgiven, hq⟩
    · exact h.gained k' qs' hget q hq

end Grows

end OrderedMap

/-! ## Records -/

namespace Record

/-- `r'` is `r` after a run over the relation `rel`. It may have more types there, each with the
    tops of a target in that relation of which it was known. -/
structure Learns (rel : Relation) (known : Target → Ty → Prop) (r r' : Record) : Prop where
  target : r'.target = r.target
  targets : ∀ rel', r'.targetsIn rel' = r.targetsIn rel'
  exact : r'.equalities.primaries = r.equalities.primaries
  bounds : ∀ side : Side, (side.relations r').primaries = (side.relations r).primaries
  others : ∀ rel', rel' ≠ rel → r'.typesIn rel' = r.typesIn rel'
  types : (r.typesIn rel).Grows
    (fun ty tops => ∃ u, (r.targetsIn rel).get? u = some tops ∧ known u ty) (r'.typesIn rel)

namespace Learns

variable {rel : Relation} {known known' : Target → Ty → Prop} {r r' : Record}

theorem refl (r : Record) : r.Learns rel known r :=
  ⟨rfl, fun _ => rfl, rfl, fun _ => rfl, fun _ _ => rfl, .refl _⟩

theorem mono (h : r.Learns rel known r') (himp : ∀ u ty, known u ty → known' u ty) :
    r.Learns rel known' r' where
  target := h.target
  targets := h.targets
  exact := h.exact
  bounds := h.bounds
  others := h.others
  types := h.types.mono fun ty _ ⟨u, hu, hty⟩ => ⟨u, hu, himp u ty hty⟩

theorem relateType (h : r.Learns rel known r') {u : Target} {ty : Ty} {tops : Qualifiers}
    (hu : (r.targetsIn rel).get? u = some tops) (hty : known u ty) :
    r.Learns rel known (r'.relateType rel ty tops) where
  target := (target_relateType ..).trans h.target
  targets rel' := (targetsIn_relateType ..).trans (h.targets rel')
  exact := (exact_relateType ..).trans h.exact
  bounds side := (bounds_relateType ..).trans (h.bounds side)
  others rel' hne := (typesIn_relateType_of_ne hne ..).trans (h.others rel' hne)
  types := by
    rw [typesIn_relateType]
    exact h.types.upsert ⟨u, hu, hty⟩

theorem relateTypes (h : r.Learns rel known r') {types : List (Ty × Qualifiers)}
    (htypes : ∀ e ∈ types, ∃ u, (r.targetsIn rel).get? u = some e.2 ∧ known u e.1) :
    r.Learns rel known (r'.relateTypes rel types) := by
  induction types generalizing r' with
  | nil => exact h
  | cons e types ih =>
    obtain ⟨u, hu, hty⟩ := htypes e (.head _)
    exact ih (h.relateType hu hty) fun e' he' => htypes e' (.tail _ he')

end Learns

end Record

/-! ## Runs -/

/-- The type is found for the target or established before. Found types stay, so that is all that a
    run knows of the target at some time. -/
def Answers.Tell (found established : Answers) (t : Target) (ty : Ty) : Prop :=
  found.typeOf? t = some ty ∨ established.typeOf? t = some ty

namespace Solving

variable {s : Store} {rel : Relation} {established : Answers} {st : Solving} {t : Target} {ty : Ty}

theorem tell_of_typeOf? (h : st.typeOf? established t = some ty) :
    st.found.Tell established t ty :=
  (Option.or_eq_some_iff.1 h).imp_right And.right

theorem exists_of_mem_evidence {related : OrderedMap Target Qualifiers} {e : Ty × Qualifiers}
    (he : e ∈ st.evidence established related) :
    ∃ u, related.get? u = some e.2 ∧ st.typeOf? established u = some e.1 := by
  obtain ⟨⟨u, tops⟩, hu, heq⟩ := List.mem_filterMap.1 he
  obtain ⟨ty, hty, rfl⟩ := Option.map_eq_some_iff.1 heq
  exact ⟨u, OrderedMap.get?_of_mem_entries hu, hty⟩

/-- What a run over the relation `rel` has written to the store `s` so far. -/
structure Confined (s : Store) (rel : Relation) (established : Answers) (st : Solving) : Prop where
  targets : st.store.targets = s.targets
  record : ∀ {t r}, s.record? t = some r →
    ∃ r', st.store.record? t = some r' ∧ r.Learns rel (st.found.Tell established) r'
  settled : ∀ {t}, established.isFinal t = true → st.store.record? t = s.record? t

namespace Confined

theorem start (s : Store) (rel : Relation) (established : Answers) :
    Confined s rel established ⟨s, ∅⟩ where
  targets := rfl
  record hr := ⟨_, hr, .refl _⟩
  settled _ := rfl

/-- Learning writes to the record of one target, which is not settled. -/
theorem learn (h : Confined s rel established st) (hfinal : established.isFinal t = false) :
    Confined s rel established (st.learn established t rel (·.targetsIn rel)) where
  targets := (targets_learn ..).trans h.targets
  record {u r} hr := by
    obtain ⟨r', hr', hlearns⟩ := h.record hr
    rw [found_learn]
    by_cases hut : u = t
    · subst hut
      refine ⟨_, by rw [record?_learn_self, hr', Option.map_some], hlearns.relateTypes ?_⟩
      intro e he
      obtain ⟨v, hv, hty⟩ := exists_of_mem_evidence he
      exact ⟨v, hlearns.targets rel ▸ hv, tell_of_typeOf? hty⟩
    · exact ⟨r', (record?_learn_of_ne _ _ _ _ _ hut).trans hr', hlearns⟩
  settled {u} hu := by
    have hut : u ≠ t := by
      rintro rfl
      rw [hfinal] at hu
      cases hu
    exact (record?_learn_of_ne _ _ _ _ _ hut).trans (h.settled hu)

/-- An answer writes nothing, and what was known of its target is known still. -/
theorem answer (h : Confined s rel established st) (hnone : st.found.typeOf? t = none) (ty : Ty) :
    Confined s rel established (st.answer t ty) where
  targets := h.targets
  record hr := by
    obtain ⟨r', hr', hlearns⟩ := h.record hr
    exact ⟨r', hr', hlearns.mono fun u uty => .imp_left (Answers.keepsTypes_insert hnone ty u uty)⟩
  settled := h.settled

end Confined

end Solving

open Solving

namespace Equalities

variable {s : Store} {established : Answers} {st : Solving}

theorem confined_attempt (h : Confined s .equal established st) (t : Target) :
    Confined s .equal established (attempt established st t).1 := by
  rcases attempt_cases established st t with ⟨-, heq⟩ | ⟨htried, htried'⟩
  · rwa [heq]
  · obtain ⟨hfinal, hnone⟩ := skips_eq_false_iff.1 htried
    have hinformed : Confined s .equal established (informed established st t) := h.learn hfinal
    rcases htried' with ⟨-, heq⟩ | ⟨ty, -, heq⟩
    · rwa [heq]
    · rw [heq]
      exact hinformed.answer (by rwa [found_informed]) ty

theorem confined_typed (s : Store) (established : Answers) :
    Confined s .equal established (typed s established) :=
  spread_induction (.start s .equal established) fun _ t _ h => confined_attempt h t

/-- Aliases are not written to the store. -/
theorem store_solve (s : Store) (established : Answers) :
    (solve s established).1 = (typed s established).store := by
  have hfold : ∀ (ts : List Target) (st : Solving),
      (ts.foldl (addAlias established) st).store = st.store := by
    intro ts
    induction ts with
    | nil => exact fun _ => rfl
    | cons t ts ih => exact fun st => (ih _).trans (store_addAlias established st t)
  exact hfold s.targets (typed s established)

end Equalities

namespace Bounds

variable {b : Bounds} {s : Store} {established : Answers} {patience : Patience} {st : Solving}

theorem confined_attempt (h : Confined s b.side.relation established st) (t : Target) :
    Confined s b.side.relation established (b.attempt established patience st t).1 := by
  rcases attempt_cases b established patience st t with ⟨-, heq⟩ | ⟨htried, -, htried'⟩
  · rwa [heq]
  · obtain ⟨hfinal, hget⟩ := skips_eq_false_iff.1 htried
    have hnone : st.found.typeOf? t = none :=
      Answers.typeOf?_of_not_mem (TargetMap.get?_eq_none_iff.1 hget)
    have hinformed : Confined s b.side.relation established (b.informed established st t) := by
      simp only [informed, targets_relations]
      exact h.learn hfinal
    rcases htried' with ⟨-, heq⟩ | ⟨ty, -, heq⟩
    · rwa [heq]
    · rw [heq]
      exact hinformed.answer (by rwa [found_informed]) ty

theorem confined_rounds (b : Bounds) (s : Store) (established : Answers) :
    Confined s b.side.relation established (b.rounds established s.targets .waiting ⟨s, ∅⟩) :=
  rounds_induction (.start s b.side.relation established) fun _ _ t _ h => confined_attempt h t

end Bounds

/-- What a strategy may write. The targets stay, and so do the records of settled targets. Any other
    record keeps its target, its related targets, its bare qualifiers and its types in the relations
    that the strategy does not read. In the one that it reads types keep their order and gain at
    most tops, and new ones are known, from the run or before it, of a target that is recorded in
    that relation. -/
theorem BuiltIn.solve_confined (b : BuiltIn) (types : TypeOrder) (qualifiers : QualifierOrder)
    (s : Store) (established : Answers) :
    let out := (b.strategy types qualifiers).solve s established
    out.1.targets = s.targets ∧
      (∀ t r, s.record? t = some r → ∃ r', out.1.record? t = some r' ∧
        r.Learns b.relation (out.2.Tell established) r') ∧
      ∀ t, established.isFinal t = true → out.1.record? t = s.record? t := by
  cases b with
  | equalities =>
    have h := Equalities.confined_typed s established
    intro out
    have hstore : out.1 = (Equalities.typed s established).store := Equalities.store_solve ..
    rw [hstore]
    refine ⟨h.targets, fun t r hr => ?_, fun _ => h.settled⟩
    obtain ⟨r', hr', hlearns⟩ := h.record hr
    exact ⟨r', hr', hlearns.mono fun u ty =>
      .imp_left (Equalities.typeOf?_solve s established u).trans⟩
  | supertypes =>
    have h := Bounds.confined_rounds ⟨.lower, types, qualifiers⟩ s established
    exact ⟨h.targets, fun _ _ => h.record, fun _ => h.settled⟩
  | subtypes =>
    have h := Bounds.confined_rounds ⟨.upper, types, qualifiers⟩ s established
    exact ⟨h.targets, fun _ _ => h.record, fun _ => h.settled⟩

end QualifiedInference
