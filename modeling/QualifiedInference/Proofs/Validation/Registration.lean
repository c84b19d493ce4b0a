-- SUMMARY: When chains of names are registered and lists of qualifier names are resolved.
import QualifiedInference.Proofs.Base.List
import QualifiedInference.Proofs.WellFormed.Problem
/-!
# Registration

Chains of names are registered one after the other, and each must pass in the state that those
before it have led to. A registry knows just the names of its chains (`Registers`), each by its
place, so a list of names is resolved if all are known and no two are in one chain.
-/

namespace QualifiedInference

/-! ## Chains -/

/-- The names are in the chains, and no two of them are in the same one. -/
structure KnownApart (chains : List (List String)) (names : List String) : Prop where
  known : ∀ name ∈ names, ∃ chain ∈ chains, name ∈ chain
  apart : names.Pairwise fun a b => ∀ chain ∈ chains, a ∈ chain → b ∉ chain

instance (chains : List (List String)) (names : List String) :
    Decidable (KnownApart chains names) :=
  decidable_of_iff ((∀ name ∈ names, ∃ chain ∈ chains, name ∈ chain) ∧
    names.Pairwise fun a b => ∀ chain ∈ chains, a ∈ chain → b ∉ chain)
    ⟨fun h => ⟨h.1, h.2⟩, fun h => ⟨h.known, h.apart⟩⟩

/-- Each name is known and in no chain of those before it. -/
theorem knownApart_iff {chains : List (List String)} {names : List String} :
    KnownApart chains names ↔ ∀ before name after, names = before ++ name :: after →
      (∃ chain ∈ chains, name ∈ chain) ∧
        ∀ a ∈ before, ∀ chain ∈ chains, a ∈ chain → name ∉ chain := by
  constructor
  · exact fun h before name after hl =>
      ⟨List.forall_mem_iff_append_cons.1 h.known before name after hl,
        List.pairwise_iff_append_cons.1 h.apart before name after hl⟩
  · exact fun h =>
      ⟨List.forall_mem_iff_append_cons.2 fun before name after hl => (h before name after hl).1,
        List.pairwise_iff_append_cons.2 fun before name after hl => (h before name after hl).2⟩

namespace Hierarchies

/-- The chains have been registered in this order, and nothing else. A name stands for the number
    of its chain and its place there. -/
structure Registers (hs : Hierarchies) (chains : List (List String)) : Prop where
  count : hs.count = chains.length
  nodup : chains.flatten.Nodup
  lookup : ∀ name q, hs.lookup? name = some q ↔ ∃ i j chain, chains[i]? = some chain ∧
    chain[j]? = some name ∧ q = ⟨.ofNat i, .ofNat j⟩

variable {hs : Hierarchies} {chains : List (List String)}

theorem Registers.empty : Registers ∅ [] where
  count := rfl
  nodup := .nil
  lookup name q := by simp [lookup?, EmptyCollection.emptyCollection]

theorem Registers.length_le (h : hs.Registers chains) : chains.length ≤ 65536 :=
  h.count ▸ hs.size_le

theorem Registers.exists_lookup_iff (h : hs.Registers chains) {name : String} :
    (∃ q, hs.lookup? name = some q) ↔ ∃ chain ∈ chains, name ∈ chain := by
  simp only [h.lookup]
  constructor
  · rintro ⟨q, i, j, chain, hi, hj, -⟩
    exact ⟨chain, List.mem_of_getElem? hi, List.mem_of_getElem? hj⟩
  · rintro ⟨chain, hchain, hname⟩
    obtain ⟨i, hi⟩ := List.getElem?_of_mem hchain
    obtain ⟨j, hj⟩ := List.getElem?_of_mem hname
    exact ⟨_, i, j, chain, hi, hj, rfl⟩

theorem Registers.contains_eq_false_iff (h : hs.Registers chains) {name : String} :
    hs.index.contains name = false ↔ name ∉ chains.flatten := by
  rw [← Bool.not_eq_true, Std.HashMap.contains_eq_isSome_getElem?, Option.isSome_iff_exists,
    List.mem_flatten]
  exact not_congr h.exists_lookup_iff

theorem firstRepeated?_eq_none_iff {index : Std.HashMap String Qualifier}
    {seen : Std.HashSet String} {names : List String} :
    firstRepeated? index seen names = none ↔
      names.Nodup ∧ ∀ name ∈ names, index.contains name = false ∧ seen.contains name = false := by
  induction names generalizing seen with
  | nil => simp [firstRepeated?]
  | cons first rest ih =>
    by_cases hfirst : (index.contains first || seen.contains first) = true
    · simp only [firstRepeated?, if_pos hfirst, List.mem_cons, forall_eq_or_imp]
      simp only [Bool.or_eq_true] at hfirst
      grind
    · simp only [firstRepeated?, if_neg hfirst, ih, Std.HashSet.contains_insert,
        List.nodup_cons, List.mem_cons, forall_eq_or_imp]
      simp only [Bool.or_eq_true, not_or, Bool.not_eq_true] at hfirst
      grind

theorem getElem?_indexFrom_iff {h : HierarchyId} {names : List String} (hnames : names.Nodup)
    {rank : Nat} {index : Std.HashMap String Qualifier}
    (hnew : ∀ name ∈ names, index.contains name = false) {name : String} {q : Qualifier} :
    (indexFrom h rank index names)[name]? = some q ↔
      index[name]? = some q ∨ ∃ j, names[j]? = some name ∧ q = ⟨h, .ofNat (rank + j)⟩ := by
  induction names generalizing rank index with
  | nil => simp [indexFrom]
  | cons first rest ih =>
    obtain ⟨hfirst, hrest⟩ := List.nodup_cons.1 hnames
    have hnew' : ∀ name ∈ rest,
        (index.insert first ⟨h, .ofNat rank⟩).contains name = false := by
      intro name hname
      simp only [Std.HashMap.contains_insert, Bool.or_eq_false_iff, beq_eq_false_iff_ne]
      exact ⟨fun heq => hfirst (heq ▸ hname), hnew name (.tail _ hname)⟩
    rw [indexFrom, ih hrest hnew', Std.HashMap.getElem?_insert]
    constructor
    · rintro (hold | ⟨j, hj, rfl⟩)
      · split at hold
        · next heq => exact .inr ⟨0, by simpa using heq, (Option.some.inj hold).symm⟩
        · exact .inl hold
      · exact .inr ⟨j + 1, hj, by rw [Nat.add_right_comm, Nat.add_assoc]⟩
    · rintro (hold | ⟨j, hj, rfl⟩)
      · left
        rw [if_neg, hold]
        intro heq
        obtain rfl : first = name := by simpa using heq
        have hnone := Std.HashMap.getElem?_eq_none_of_contains_eq_false (hnew first (.head _))
        rw [hnone] at hold
        cases hold
      · cases j with
        | zero =>
          left
          rw [if_pos (by simpa using hj)]
          rfl
        | succ j => exact .inr ⟨j, hj, by rw [Nat.add_right_comm, Nat.add_assoc]⟩

theorem Registers.firstRepeated?_eq_none_iff (h : hs.Registers chains) {names : List String} :
    firstRepeated? hs.index ∅ names = none ↔ (chains.flatten ++ names).Nodup := by
  rw [Hierarchies.firstRepeated?_eq_none_iff, List.nodup_append]
  simp only [h.contains_eq_false_iff, Std.HashSet.contains_empty, and_true]
  constructor
  · rintro ⟨hnodup, hnew⟩
    exact ⟨h.nodup, hnodup, fun a ha b hb heq => hnew b hb (heq ▸ ha)⟩
  · rintro ⟨-, hnodup, hnew⟩
    exact ⟨hnodup, fun name hname hold => hnew name hold name hname rfl⟩

theorem Registers.exists_register_iff (h : hs.Registers chains) {names : List String} :
    (∃ id, (hs.register names).1 = .ok id) ↔
      names ≠ [] ∧ chains.length < 65536 ∧ (chains.flatten ++ names).Nodup := by
  rw [← h.count, ← h.firstRepeated?_eq_none_iff]
  rcases hs.register_cases names with ⟨⟨e, heq⟩, hwhy⟩ | ⟨hs', heq, hpasses, -⟩
  · rw [heq]
    constructor
    · rintro ⟨id, hid⟩
      cases hid
    · rintro ⟨hne, hroom, hnone⟩
      rcases hwhy with hempty | hfull | hrepeated
      · exact absurd hempty hne
      · exact absurd hroom hfull
      · exact absurd hnone hrepeated
  · rw [heq]
    exact ⟨fun _ => hpasses, fun _ => ⟨_, rfl⟩⟩

theorem Registers.register (h : hs.Registers chains) {names : List String} {id : HierarchyId}
    (hid : (hs.register names).1 = .ok id) :
    (hs.register names).2.Registers (chains ++ [names]) := by
  rcases hs.register_cases names with ⟨⟨e, heq⟩, -⟩ | ⟨hs', heq, ⟨-, -, hnone⟩, hchains, hindex⟩
  · rw [heq] at hid
    cases hid
  · rw [heq]
    obtain ⟨hnames, hnew⟩ := Hierarchies.firstRepeated?_eq_none_iff.1 hnone
    refine ⟨?_, by simpa using h.firstRepeated?_eq_none_iff.1 hnone, fun name q => ?_⟩
    · rw [Hierarchies.count, hchains, Array.size_push, List.length_append, List.length_singleton]
      exact congrArg (· + 1) h.count
    · rw [lookup?, hindex, getElem?_indexFrom_iff hnames fun name hname => (hnew name hname).1,
        show hs.index[name]? = some q ↔ _ from h.lookup name q]
      simp only [List.getElem?_concat_eq_some_iff, h.count, Nat.zero_add]
      constructor
      · rintro (⟨i, j, chain, hi, hj, hq⟩ | ⟨j, hj, hq⟩)
        · exact ⟨i, j, chain, .inl hi, hj, hq⟩
        · exact ⟨chains.length, j, names, .inr ⟨rfl, rfl⟩, hj, hq⟩
      · rintro ⟨i, j, chain, hi | ⟨rfl, rfl⟩, hj, hq⟩
        · exact .inl ⟨i, j, chain, hi, hj, hq⟩
        · exact .inr ⟨j, hj, hq⟩

/-- A chain is registered, or the registry refuses it. -/
def registered? (hs : Hierarchies) (names : List String) : Except HierarchyError Hierarchies :=
  (hs.register names).1.map fun _ => (hs.register names).2

theorem registered?_eq_ok_iff {hs' : Hierarchies} {names : List String} :
    hs.registered? names = .ok hs' ↔
      (∃ id, (hs.register names).1 = .ok id) ∧ (hs.register names).2 = hs' := by
  unfold registered?
  cases (hs.register names).1 <;> simp [Except.map]

theorem registerAll_eq_ok_iff {hs' : Hierarchies} {index : Nat} {rest : List (List String)} :
    hs.registerAll index rest = .ok hs' ↔ rest.foldlM registered? hs = .ok hs' := by
  induction rest generalizing hs index with
  | nil => simp [registerAll, pure, Except.pure]
  | cons names rest ih =>
    rw [registerAll, List.foldlM_cons, Except.bind_eq_ok_iff]
    simp only [registered?_eq_ok_iff]
    split
    · next id next heq =>
      rw [ih]
      constructor
      · exact fun h => ⟨next, ⟨⟨id, by rw [heq]⟩, by rw [heq]⟩, h⟩
      · rintro ⟨_, ⟨-, rfl⟩, h⟩
        rwa [heq] at h
    · next heq => simp [heq]

theorem registers_checks {chains : List (List String)} :
    ((∃ hs, registerAll ∅ 0 chains = .ok hs) ↔ ∀ before names after,
      chains = before ++ names :: after →
        names ≠ [] ∧ before.length < 65536 ∧ (before.flatten ++ names).Nodup) ∧
    ∀ hs, registerAll ∅ 0 chains = .ok hs → hs.Registers chains := by
  simp only [registerAll_eq_ok_iff]
  refine Except.foldlM_checks (I := fun done hs => Registers hs done)
    (C := fun done names => names ≠ [] ∧ done.length < 65536 ∧ (done.flatten ++ names).Nodup)
    (fun done hs names h => ?_) (fun done hs names hs' h hok => ?_) Registers.empty chains
  · simp only [registered?_eq_ok_iff, exists_and_left, exists_eq', and_true]
    exact h.exists_register_iff
  · obtain ⟨⟨id, hid⟩, rfl⟩ := registered?_eq_ok_iff.1 hok
    exact h.register hid

/-- All chains are registered if they are not too many, none is empty and no name is repeated. -/
theorem exists_registerAll_iff {chains : List (List String)} :
    (∃ hs, registerAll ∅ 0 chains = .ok hs) ↔
      chains.length ≤ 65536 ∧ (∀ chain ∈ chains, chain ≠ []) ∧ chains.flatten.Nodup := by
  rw [registers_checks.1]
  constructor
  · intro h
    refine ⟨?_, fun chain hchain => ?_, ?_⟩
    · rcases List.eq_nil_or_concat chains with rfl | ⟨before, last, rfl⟩
      · exact Nat.zero_le _
      · have := (h before last [] (by simp)).2.1
        simp only [List.concat_eq_append, List.length_append, List.length_singleton]
        omega
    · obtain ⟨before, after, rfl⟩ := List.append_of_mem hchain
      exact (h before chain after rfl).1
    · rcases List.eq_nil_or_concat chains with rfl | ⟨before, last, rfl⟩
      · exact .nil
      · simpa using (h before last [] (by simp)).2.2
  · rintro ⟨hlen, hne, hnodup⟩ before names after rfl
    refine ⟨hne names (by simp), ?_, ?_⟩
    · simp only [List.length_append, List.length_cons] at hlen
      omega
    · rw [List.flatten_append, List.flatten_cons, ← List.append_assoc] at hnodup
      exact (List.nodup_append.1 hnodup).1

/-! ## Resolving names -/

/-- What is taken is what the names taken stand for. -/
theorem mem_of_addNamed {done : List String} {name : String} {qs qs' : Qualifiers}
    (hqs : ∀ q, q ∈ qs ↔ ∃ name ∈ done, hs.lookup? name = some q)
    (hadd : hs.addNamed qs name = .ok qs') (q : Qualifier) :
    q ∈ qs' ↔ ∃ a ∈ done ++ [name], hs.lookup? a = some q := by
  unfold addNamed at hadd
  split at hadd
  · cases hadd
  · next q' hq =>
    split at hadd
    · cases hadd
    · cases hadd
      simp only [Qualifiers.mem_insert, hqs, List.mem_append, List.mem_singleton]
      grind

section Resolve

variable (h : hs.Registers chains) {a b name : String} {p q : Qualifier}

include h

/-- Names of one hierarchy are names of one chain. -/
theorem Registers.hierarchy_eq_iff (hp : hs.lookup? a = some p) (hq : hs.lookup? b = some q) :
    p.hierarchy = q.hierarchy ↔ ∃ chain ∈ chains, a ∈ chain ∧ b ∈ chain := by
  obtain ⟨i, j, chain, hi, hj, rfl⟩ := (h.lookup a p).1 hp
  obtain ⟨k, l, chain', hk, hl, rfl⟩ := (h.lookup b q).1 hq
  have ha := List.mem_of_getElem? hj
  have hb := List.mem_of_getElem? hl
  have hlt : ∀ {n : Nat} {chain : List String}, chains[n]? = some chain → n < 65536 := fun hn =>
    Nat.lt_of_lt_of_le (List.getElem?_eq_some_iff.1 hn).1 h.length_le
  constructor
  · intro heq
    have hik : i = k := by
      have := congrArg UInt16.toNat heq
      simpa [Nat.mod_eq_of_lt (hlt hi), Nat.mod_eq_of_lt (hlt hk)] using this
    subst hik
    obtain rfl : chain = chain' := Option.some.inj (hi.symm.trans hk)
    exact ⟨chain, List.mem_of_getElem? hi, ha, hb⟩
  · rintro ⟨common, hcommon, hac, hbc⟩
    obtain ⟨n, hn⟩ := List.getElem?_of_mem hcommon
    rw [List.eq_of_mem_of_nodup_flatten h.nodup hi hn ha hac,
      List.eq_of_mem_of_nodup_flatten h.nodup hk hn hb hbc]

/-- In chains that are not too long the top is what stands first. -/
theorem Registers.isTop_iff (hlen : ∀ chain ∈ chains, chain.length < 4294967296)
    (hq : hs.lookup? name = some q) :
    q.isTop = true ↔ ∃ chain ∈ chains, chain.head? = some name := by
  obtain ⟨i, j, chain, hi, hj, rfl⟩ := (h.lookup name q).1 hq
  have hmem := List.mem_of_getElem? hi
  have hlt : j < 4294967296 := Nat.lt_trans (List.getElem?_eq_some_iff.1 hj).1 (hlen chain hmem)
  have hzero : (Qualifier.mk (.ofNat i) (.ofNat j)).isTop = true ↔ j = 0 := by
    have hrank : (UInt32.ofNat j).toNat = j := Nat.mod_eq_of_lt hlt
    rw [Qualifier.isTop, beq_iff_eq, ← UInt32.toNat_inj, hrank]
    exact Iff.rfl
  rw [hzero]
  constructor
  · rintro rfl
    exact ⟨chain, hmem, by rw [← hj, List.head?_eq_getElem?]⟩
  · rintro ⟨chain', hchain', hhead⟩
    obtain ⟨k, hk⟩ := List.getElem?_of_mem hchain'
    rw [List.head?_eq_getElem?] at hhead
    obtain rfl := List.eq_of_mem_of_nodup_flatten h.nodup hi hk (List.mem_of_getElem? hj)
      (List.mem_of_getElem? hhead)
    obtain rfl : chain = chain' := Option.some.inj (hi.symm.trans hk)
    have hnodup := (List.nodup_flatten.1 h.nodup).1 chain hmem
    exact (List.getElem?_inj (List.getElem?_eq_some_iff.1 hj).1 hnodup).1 (hj.trans hhead.symm)

/-- A name may be added to those taken if it is known and in no chain of theirs. -/
theorem Registers.exists_addNamed_iff {done : List String} {qs : Qualifiers}
    (hqs : ∀ q, q ∈ qs ↔ ∃ name ∈ done, hs.lookup? name = some q) :
    (∃ qs', hs.addNamed qs name = .ok qs') ↔ (∃ chain ∈ chains, name ∈ chain) ∧
      ∀ a ∈ done, ∀ chain ∈ chains, a ∈ chain → name ∉ chain := by
  rw [← h.exists_lookup_iff]
  unfold addNamed
  cases hq : hs.lookup? name with
  | none => simp
  | some q =>
    have hnone : (qs.inHierarchy? q.hierarchy).isSome = false ↔
        ∀ a ∈ done, ∀ chain ∈ chains, a ∈ chain → name ∉ chain := by
      rw [Option.isSome_eq_false_iff, Option.isNone_iff_eq_none, Qualifiers.inHierarchy?_eq_none]
      constructor
      · intro hother a ha chain hchain hac hnc
        obtain ⟨p, hp⟩ := h.exists_lookup_iff.2 ⟨chain, hchain, hac⟩
        exact hother p ((hqs p).2 ⟨a, ha, hp⟩)
          ((h.hierarchy_eq_iff hp hq).2 ⟨chain, hchain, hac, hnc⟩)
      · intro hother p hp heq
        obtain ⟨a, ha, hp⟩ := (hqs p).1 hp
        obtain ⟨chain, hchain, hac, hnc⟩ := (h.hierarchy_eq_iff hp hq).1 heq
        exact hother a ha chain hchain hac hnc
    simp only [Option.some.injEq, exists_eq', true_and, ← hnone]
    split
    · next hsome => simp [hsome]
    · next hsome => simpa using hsome

/-- A list of names is resolved if they are known and no two are in one chain. -/
theorem Registers.exists_resolve_iff {names : List String} :
    (∃ qs, hs.resolve names = .ok qs) ↔ KnownApart chains names := by
  -- The members of the set are the qualifiers that the names taken before stand for.
  have hchecks := (Except.foldlM_checks (f := hs.addNamed)
    (I := fun done qs => ∀ q, q ∈ qs ↔ ∃ name ∈ done, hs.lookup? name = some q)
    (C := fun done name => (∃ chain ∈ chains, name ∈ chain) ∧
      ∀ a ∈ done, ∀ chain ∈ chains, a ∈ chain → name ∉ chain)
    (fun _ _ _ hqs => h.exists_addNamed_iff hqs) (fun _ _ _ _ hqs hadd => mem_of_addNamed hqs hadd)
    (d := []) (b := ∅) (fun q => by simp [Qualifiers.mem_def, EmptyCollection.emptyCollection])
    names).1
  rw [resolve, hchecks, knownApart_iff]
  simp only [List.nil_append]

theorem Registers.exists_resolveTops_iff (hlen : ∀ chain ∈ chains, chain.length < 4294967296)
    (names? : Option (List String)) : (∃ tops, hs.resolveTops names? = .ok tops) ↔
      ∀ names, names? = some names → ∀ name ∈ names, ∃ chain ∈ chains, chain.head? = some name := by
  cases names? with
  | none => simp [resolveTops]
  | some names =>
    have hchecks := (Except.foldlM_checks (f := hs.addNamedTop) (I := fun _ _ => True)
      (C := fun _ name => ∃ chain ∈ chains, chain.head? = some name)
      (fun _ tops name _ => ?_) (fun _ _ _ _ _ _ => trivial) (d := []) (b := ∅) trivial names).1
    · simp only [resolveTops, hchecks, Option.some.injEq, forall_eq',
        List.forall_mem_iff_append_cons]
    · unfold addNamedTop
      cases hq : hs.lookup? name with
      | none =>
        have hunknown : ¬∃ chain ∈ chains, name ∈ chain := by
          rw [← h.exists_lookup_iff, hq]
          simp
        simp only [reduceCtorEq, exists_false, false_iff]
        rintro ⟨chain, hchain, hhead⟩
        exact hunknown ⟨chain, hchain, List.mem_of_head? hhead⟩
      | some q =>
        rw [← h.isTop_iff hlen hq]
        simp only
        split
        · next htop => simp [htop]
        · next htop => simp [htop]

end Resolve

end Hierarchies

end QualifiedInference
