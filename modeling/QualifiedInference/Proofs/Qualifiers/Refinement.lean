-- SUMMARY: Sets of qualifiers against finite sets and against lists kept by search, operation by operation.
import Mathlib.Data.Finset.Basic
import QualifiedInference.Proofs.Qualifiers
/-!
# Sets of qualifiers and their members

Sets of qualifiers are kept as increasing lists. Beside that stand the finite sets of their
members, and lists in which every place is found by search. Operations on named sets run on each
of these representations, and a translation of one into another carries whole runs over
(`Representation.Translates.run`). So whatever is done, an increasing list has the members of the
finite set and gives its answers, and so does a list that is kept by a search that is right about
increasing lists (`run_refines`).
-/

namespace QualifiedInference

namespace Qualifiers

/-! ## Search -/

/-- Where a search finds a qualifier, or would put it. -/
inductive Place where
  | found (i : Nat)
  | missing (i : Nat)
deriving DecidableEq

abbrev Search := List Qualifier → Qualifier → Place

/-- The place is right: the qualifier is there, or it is missing and belongs there. -/
def Locates (l : List Qualifier) (q : Qualifier) : Place → Prop
  | .found i => l[i]? = some q
  | .missing i => ∃ below above, l = below ++ above ∧ below.length = i ∧
    (∀ p ∈ below, p < q) ∧ ∀ p ∈ above, q < p

/-- The search is right about increasing lists. -/
def Finds (search : Search) : Prop :=
  ∀ l q, l.Pairwise (· < ·) → Locates l q (search l q)

def Place.shift (n : Nat) : Place → Place
  | .found i => .found (n + i)
  | .missing i => .missing (n + i)

/-- Binary search. -/
def bisect (l : List Qualifier) (q : Qualifier) : Place :=
  match _h : l.drop (l.length / 2) with
  | [] => .missing 0
  | p :: above =>
    if q = p then .found (l.length / 2)
    else if q < p then bisect (l.take (l.length / 2)) q
    else (bisect above q).shift (l.length / 2 + 1)
termination_by l.length
decreasing_by
  all_goals
    have hlength := congrArg List.length _h
    simp only [List.length_drop, List.length_cons] at hlength
  · simp only [List.length_take]
    omega
  · omega

theorem Locates.mem {l : List Qualifier} {q : Qualifier} {i : Nat} (h : Locates l q (.found i)) :
    q ∈ l :=
  List.mem_of_getElem? h

theorem Locates.not_mem {l : List Qualifier} {q : Qualifier} {i : Nat}
    (h : Locates l q (.missing i)) : q ∉ l := by
  obtain ⟨below, above, rfl, -, hbelow, habove⟩ := h
  intro hq
  cases List.mem_append.1 hq with
  | inl hq => exact Qualifier.lt_irrefl q (hbelow q hq)
  | inr hq => exact Qualifier.lt_irrefl q (habove q hq)

theorem Locates.append_right {l above : List Qualifier} {q : Qualifier} {place : Place}
    (h : Locates l q place) (habove : ∀ p ∈ above, q < p) : Locates (l ++ above) q place := by
  cases place with
  | found i =>
    have hi : i < l.length := (List.getElem?_eq_some_iff.1 h).1
    simpa only [Locates, List.getElem?_append_left hi] using h
  | missing i =>
    obtain ⟨below, between, rfl, hlength, hbelow, hbetween⟩ := h
    refine ⟨below, between ++ above, List.append_assoc .., hlength, hbelow, fun p hp => ?_⟩
    exact (List.mem_append.1 hp).elim (hbetween p) (habove p)

theorem Locates.append_left {l below : List Qualifier} {q : Qualifier} {place : Place}
    (h : Locates l q place) (hbelow : ∀ p ∈ below, p < q) :
    Locates (below ++ l) q (place.shift below.length) := by
  cases place with
  | found i =>
    have hi : below.length ≤ below.length + i := Nat.le_add_right ..
    simpa only [Place.shift, Locates, List.getElem?_append_right hi, Nat.add_sub_cancel_left]
      using h
  | missing i =>
    obtain ⟨between, above, rfl, rfl, hbetween, habove⟩ := h
    refine ⟨below ++ between, above, (List.append_assoc ..).symm, List.length_append,
      fun p hp => ?_, habove⟩
    exact (List.mem_append.1 hp).elim (hbelow p) (hbetween p)

theorem bisect_of_drop {l above : List Qualifier} {p : Qualifier} (q : Qualifier)
    (h : l.drop (l.length / 2) = p :: above) : bisect l q =
      if q = p then .found (l.length / 2)
      else if q < p then bisect (l.take (l.length / 2)) q
      else (bisect above q).shift (l.length / 2 + 1) := by
  rw [bisect]
  split
  · next h' => rw [h] at h'; cases h'
  · next h' => rw [h] at h'; cases h'; rfl

theorem finds_bisect : Finds bisect := by
  intro l q hsorted
  -- Along the recursion of `bisect`; the middle member separates the two halves.
  induction l using bisect.induct q with
  | case1 l h =>
    have hlength := congrArg List.length h
    simp only [List.length_drop, List.length_nil] at hlength
    have hnil : l = [] := List.eq_nil_of_length_eq_zero (by omega)
    subst hnil
    unfold bisect
    exact ⟨[], [], rfl, rfl, by simp, by simp⟩
  | case2 l above h =>
    have hhead := congrArg (·[0]?) h
    simp only [bisect_of_drop q h, if_true]
    simpa [Locates] using hhead
  | case3 l p above h hne hlt ih =>
    have hl : l.take (l.length / 2) ++ p :: above = l := by rw [← h, List.take_append_drop]
    rw [← hl] at hsorted
    have hparts := List.pairwise_append.1 hsorted
    have habove : ∀ x ∈ p :: above, q < x := fun x hx => by
      cases hx with
      | head => exact hlt
      | tail _ hx => exact Qualifier.lt_trans hlt ((List.pairwise_cons.1 hparts.2.1).1 x hx)
    have hplace := (ih hparts.1).append_right habove
    simp only [hl] at hplace
    simpa only [bisect_of_drop q h, if_neg hne, if_pos hlt] using hplace
  | case4 l p above h hne hlt ih =>
    have hl : (l.take (l.length / 2) ++ [p]) ++ above = l := by
      rw [List.append_assoc, List.singleton_append, ← h, List.take_append_drop]
    rw [← hl] at hsorted
    have hparts := List.pairwise_append.1 hsorted
    have hpq : p < q := Qualifier.lt_of_not_lt_of_ne hlt hne
    have hbelow : ∀ x ∈ l.take (l.length / 2) ++ [p], x < q := fun x hx => by
      cases List.mem_append.1 hx with
      | inl hx =>
        have hxp := (List.pairwise_append.1 hparts.1).2.2 x hx p (.head _)
        exact Qualifier.lt_trans hxp hpq
      | inr hx => exact List.mem_singleton.1 hx ▸ hpq
    have hlength : (l.take (l.length / 2) ++ [p]).length = l.length / 2 + 1 := by
      simp only [List.length_append, List.length_take, List.length_singleton]
      omega
    have hplace := (ih hparts.2.1).append_left hbelow
    simp only [hl, hlength] at hplace
    simpa only [bisect_of_drop q h, if_neg hne, if_neg hlt] using hplace

/-! ## Lists kept by search -/

def containsBy (search : Search) (l : List Qualifier) (q : Qualifier) : Bool :=
  match search l q with
  | .found _ => true
  | .missing _ => false

/-- Inserts `q` where the search would put it, and tells whether it was missing. -/
def insertBy (search : Search) (l : List Qualifier) (q : Qualifier) : List Qualifier × Bool :=
  match search l q with
  | .found _ => (l, false)
  | .missing i => (l.insertIdx i q, true)

/-- One insertion more, after which it is known whether there has been a new member. -/
def insertOne (search : Search) (acc : List Qualifier × Bool) (q : Qualifier) :
    List Qualifier × Bool :=
  ((insertBy search acc.1 q).1, acc.2 || (insertBy search acc.1 q).2)

def unionBy (search : Search) (l m : List Qualifier) : List Qualifier × Bool :=
  m.foldl (insertOne search) (l, false)

/-- The first member of a hierarchy. -/
def firstIn (l : List Qualifier) (h : HierarchyId) : Option Qualifier :=
  l.find? (·.hierarchy == h)

/-- Overwrites `l` hierarchy by hierarchy; there is nothing to do for no members. -/
def overlayBy (search : Search) (l m : List Qualifier) : List Qualifier :=
  if m.isEmpty then l
  else (unionBy search (l.filter fun q => (firstIn m q.hierarchy).isNone) m).1

theorem insertIdx_length (below above : List Qualifier) (q : Qualifier) :
    (below ++ above).insertIdx below.length q = below ++ q :: above := by
  induction below with
  | nil => rfl
  | cons p below ih => simp only [List.cons_append, List.length_cons, List.insertIdx_succ_cons, ih]

theorem insertSorted_between {below above : List Qualifier} {q : Qualifier}
    (hbelow : ∀ p ∈ below, p < q) (habove : ∀ p ∈ above, q < p) :
    insertSorted q (below ++ above) = below ++ q :: above := by
  induction below with
  | nil =>
    cases above with
    | nil => rfl
    | cons p above => simp only [List.nil_append, insertSorted, if_pos (habove p (.head _))]
  | cons p below ih =>
    have hpq := hbelow p (.head _)
    have hlt : ¬q < p := fun h => Qualifier.lt_asymm h hpq
    have hne : q ≠ p := fun h => Qualifier.lt_irrefl p (h ▸ hpq)
    simp only [List.cons_append, insertSorted, if_neg hlt, if_neg hne,
      ih fun x hx => hbelow x (.tail _ hx)]

/-- One addition more, after which it is known whether there has been a new member. -/
def addOne (acc : Qualifiers × Bool) (q : Qualifier) : Qualifiers × Bool :=
  ((acc.1.add q).1, acc.2 || (acc.1.add q).2)

theorem foldl_addOne (qs : List Qualifier) (acc : Qualifiers × Bool) :
    (qs.foldl addOne acc).1 = qs.foldl insert acc.1 ∧
      ((qs.foldl addOne acc).2 ↔ acc.2 ∨ ∃ q ∈ qs, q ∉ acc.1) := by
  induction qs generalizing acc with
  | nil => simp
  | cons q qs ih =>
    refine ⟨(ih (addOne acc q)).1, (ih (addOne acc q)).2.trans ?_⟩
    by_cases hq : q ∈ acc.1
    · simp [addOne, add, contains, insert_of_mem hq, hq]
    · simp [addOne, add, contains, hq]

theorem fst_addAll (s t : Qualifiers) : (s.addAll t).1 = s.union t :=
  (foldl_addOne t.toList (s, false)).1

theorem snd_addAll (s t : Qualifiers) : (s.addAll t).2 ↔ ∃ q ∈ t, q ∉ s := by
  have h := (foldl_addOne t.toList (s, false)).2
  simp only [Bool.false_eq_true, false_or] at h
  exact h

section

variable {search : Search} (hsearch : Finds search)
include hsearch

theorem containsBy_eq {l : List Qualifier} (hl : l.Pairwise (· < ·)) (q : Qualifier) :
    containsBy search l q = decide (q ∈ l) := by
  have hplace := hsearch l q hl
  unfold containsBy
  cases hfound : search l q with
  | found i =>
    simp only [hfound] at hplace
    exact (decide_eq_true hplace.mem).symm
  | missing i =>
    simp only [hfound] at hplace
    exact (decide_eq_false hplace.not_mem).symm

theorem insertBy_eq {l : List Qualifier} (hl : l.Pairwise (· < ·)) (q : Qualifier) :
    insertBy search l q = (insertSorted q l, !decide (q ∈ l)) := by
  have hplace := hsearch l q hl
  unfold insertBy
  cases hfound : search l q with
  | found i =>
    simp only [hfound] at hplace
    simp only [insertSorted_of_mem hl hplace.mem, decide_eq_true hplace.mem, Bool.not_true]
  | missing i =>
    simp only [hfound] at hplace
    simp only [decide_eq_false hplace.not_mem, Bool.not_false]
    obtain ⟨below, above, rfl, rfl, hbelow, habove⟩ := hplace
    rw [insertIdx_length, insertSorted_between hbelow habove]

theorem insertBy_toList (s : Qualifiers) (q : Qualifier) :
    insertBy search s.toList q = ((s.add q).1.toList, (s.add q).2) :=
  insertBy_eq hsearch s.sorted q

theorem foldl_insertBy_toList (qs : List Qualifier) (s : Qualifiers) :
    qs.foldl (fun l q => (insertBy search l q).1) s.toList = (qs.foldl insert s).toList := by
  induction qs generalizing s with
  | nil => rfl
  | cons q qs ih =>
    simp only [List.foldl_cons, insertBy_toList hsearch]
    exact ih (s.insert q)

theorem unionBy_toList (s t : Qualifiers) :
    unionBy search s.toList t.toList = ((s.addAll t).1.toList, (s.addAll t).2) := by
  suffices hfold : ∀ (qs : List Qualifier) (acc : Qualifiers × Bool),
      qs.foldl (insertOne search) (acc.1.toList, acc.2) =
        ((qs.foldl addOne acc).1.toList, (qs.foldl addOne acc).2) from hfold t.toList (s, false)
  intro qs
  induction qs with
  | nil => intro acc; rfl
  | cons q qs ih =>
    intro acc
    simp only [List.foldl_cons, insertOne, insertBy_toList hsearch]
    exact ih (addOne acc q)

theorem overlayBy_toList (s t : Qualifiers) :
    overlayBy search s.toList t.toList = (s.overlay t).toList := by
  unfold overlayBy
  split
  · next hempty =>
    have hnone : ∀ q, q ∉ t := by simp [mem_def, List.isEmpty_iff.1 hempty]
    have hsame : s.overlay t = s := ext_mem fun q => by simp [mem_overlay, hnone]
    rw [hsame]
  · have hunion := unionBy_toList hsearch
      (s.filter fun q => (t.inHierarchy? q.hierarchy).isNone) t
    rw [fst_addAll] at hunion
    exact congrArg Prod.fst hunion

end

/-! ## Operations on named sets -/

/-- A way to keep sets of qualifiers, with the operations on one or two of them. An insertion and a
    union also tell whether there is a new member. -/
structure Representation (σ : Type) where
  single : Qualifier → σ
  ofList : List Qualifier → σ
  insert : σ → Qualifier → σ × Bool
  union : σ → σ → σ × Bool
  overlay : σ → σ → σ

/-- An operation and the sets it is about, the first of which it writes. -/
inductive Op where
  | single (a : Nat) (q : Qualifier)
  | ofList (a : Nat) (qs : List Qualifier)
  | insert (a : Nat) (q : Qualifier)
  | union (a b : Nat)
  | overlay (a b : Nat)

namespace Representation

variable {σ τ : Type}

/-- What an operation makes of the named sets, and what it answers. -/
def step (R : Representation σ) (sets : Nat → σ) : Op → (Nat → σ) × Option Bool
  | .single a q => (Function.update sets a (R.single q), none)
  | .ofList a qs => (Function.update sets a (R.ofList qs), none)
  | .insert a q =>
    (Function.update sets a (R.insert (sets a) q).1, some (R.insert (sets a) q).2)
  | .union a b =>
    (Function.update sets a (R.union (sets a) (sets b)).1, some (R.union (sets a) (sets b)).2)
  | .overlay a b => (Function.update sets a (R.overlay (sets a) (sets b)), none)

/-- What a sequence of operations makes of the named sets, with the answers in order. -/
def run (R : Representation σ) (sets : Nat → σ) : List Op → (Nat → σ) × List (Option Bool)
  | [] => (sets, [])
  | op :: ops =>
    ((R.run (R.step sets op).1 ops).1, (R.step sets op).2 :: (R.run (R.step sets op).1 ops).2)

/-- The translation keeps every operation with its answer. -/
structure Translates (R : Representation σ) (S : Representation τ) (f : σ → τ) : Prop where
  single : ∀ q, S.single q = f (R.single q)
  ofList : ∀ qs, S.ofList qs = f (R.ofList qs)
  insert : ∀ s q, S.insert (f s) q = (f (R.insert s q).1, (R.insert s q).2)
  union : ∀ s t, S.union (f s) (f t) = (f (R.union s t).1, (R.union s t).2)
  overlay : ∀ s t, S.overlay (f s) (f t) = f (R.overlay s t)

namespace Translates

variable {R : Representation σ} {S : Representation τ} {f : σ → τ}

theorem step (h : Translates R S f) (sets : Nat → σ) (op : Op) :
    S.step (f ∘ sets) op = (f ∘ (R.step sets op).1, (R.step sets op).2) := by
  cases op with
  | single a q => simp only [Representation.step, h.single, Function.comp_update]
  | ofList a qs => simp only [Representation.step, h.ofList, Function.comp_update]
  | insert a q =>
    simp only [Representation.step, Function.comp_apply, h.insert, Function.comp_update]
  | union a b =>
    simp only [Representation.step, Function.comp_apply, h.union, Function.comp_update]
  | overlay a b =>
    simp only [Representation.step, Function.comp_apply, h.overlay, Function.comp_update]

theorem run (h : Translates R S f) (sets : Nat → σ) (ops : List Op) :
    S.run (f ∘ sets) ops = (f ∘ (R.run sets ops).1, (R.run sets ops).2) := by
  induction ops generalizing sets with
  | nil => rfl
  | cons op ops ih => simp only [Representation.run, h.step, ih]

end Translates

end Representation

/-- The increasing lists. -/
def canonical : Representation Qualifiers where
  single := singleton
  ofList := ofList
  insert := add
  union := addAll
  overlay := overlay

/-- The lists that are kept by search. -/
def searched (search : Search) : Representation (List Qualifier) where
  single q := (insertBy search [] q).1
  ofList qs := qs.foldl (fun l q => (insertBy search l q).1) []
  insert := insertBy search
  union := unionBy search
  overlay := overlayBy search

/-- The members afterwards, and whether they are not those before. -/
def changed (before after : Finset Qualifier) : Finset Qualifier × Bool :=
  (after, decide (after ≠ before))

/-- The finite sets of members. -/
def members : Representation (Finset Qualifier) where
  single q := {q}
  ofList qs := qs.toFinset
  insert s q := changed s (Insert.insert q s)
  union s t := changed s (s ∪ t)
  overlay s t := s.filter (fun q => ∀ p ∈ t, p.hierarchy ≠ q.hierarchy) ∪ t

theorem translates_searched {search : Search} (hsearch : Finds search) :
    Representation.Translates canonical (searched search) toList where
  single q := congrArg Prod.fst (insertBy_toList hsearch ∅ q)
  ofList qs := foldl_insertBy_toList hsearch qs ∅
  insert := insertBy_toList hsearch
  union := unionBy_toList hsearch
  overlay := overlayBy_toList hsearch

/-- The members. -/
def toFinset (s : Qualifiers) : Finset Qualifier := s.toList.toFinset

theorem mem_toFinset {s : Qualifiers} {q : Qualifier} : q ∈ s.toFinset ↔ q ∈ s :=
  List.mem_toFinset

theorem toFinset_inj {s t : Qualifiers} : s.toFinset = t.toFinset ↔ s = t := by
  refine ⟨fun h => ext_mem fun q => ?_, fun h => h ▸ rfl⟩
  simp only [← mem_toFinset, h]

theorem toFinset_insert (s : Qualifiers) (q : Qualifier) :
    (s.insert q).toFinset = Insert.insert q s.toFinset := by
  ext x
  simp only [mem_toFinset, mem_insert, Finset.mem_insert]

theorem toFinset_union (s t : Qualifiers) : (s.union t).toFinset = s.toFinset ∪ t.toFinset := by
  ext x
  simp only [mem_toFinset, mem_union, Finset.mem_union]

theorem translates_members : Representation.Translates canonical members toFinset where
  single q := ((toFinset_insert ∅ q).trans (insert_empty_eq q)).symm
  ofList qs := by
    ext x
    simp only [members, canonical, mem_toFinset, mem_ofList, List.mem_toFinset]
  insert s q := by
    have hnew : decide (Insert.insert q s.toFinset ≠ s.toFinset) = !s.contains q := by
      simp only [ne_eq, Finset.insert_eq_self, mem_toFinset, contains, decide_not]
    simp only [members, canonical, changed, add, toFinset_insert, hnew]
  union s t := by
    have hnew : decide (s.toFinset ∪ t.toFinset ≠ s.toFinset) = (s.addAll t).2 := by
      apply Bool.eq_iff_iff.2
      simp only [decide_eq_true_iff, ne_eq, Finset.union_eq_left, snd_addAll, Finset.subset_iff,
        mem_toFinset, not_forall, exists_prop]
    simp only [members, canonical, changed, fst_addAll, toFinset_union, hnew]
  overlay s t := by
    ext x
    simp only [members, canonical, mem_toFinset, mem_overlay, Finset.mem_union, Finset.mem_filter,
      or_comm]

/-- The member of least rank in a hierarchy, if there is one. -/
def Lowest (s : Finset Qualifier) (h : HierarchyId) : Option Qualifier → Prop
  | none => ∀ q ∈ s, q.hierarchy ≠ h
  | some q => q ∈ s ∧ q.hierarchy = h ∧ ∀ p ∈ s, p.hierarchy = h → q.rank ≤ p.rank

theorem lowest_inHierarchy? (s : Qualifiers) (h : HierarchyId) :
    Lowest s.toFinset h (s.inHierarchy? h) := by
  cases hfound : s.inHierarchy? h with
  | none =>
    intro q hq
    exact inHierarchy?_eq_none.1 hfound q (mem_toFinset.1 hq)
  | some q =>
    have hmem := mem_of_inHierarchy? hfound
    refine ⟨mem_toFinset.2 hmem.1, hmem.2, fun p hp hhier => ?_⟩
    obtain ⟨-, before, after, hl, hbefore⟩ := List.find?_eq_some_iff_append.1 hfound
    have hsorted := s.sorted
    have hp' : p ∈ before ++ q :: after := hl ▸ mem_toFinset.1 hp
    -- What comes before the first member of a hierarchy is of another, what comes after is larger.
    rw [hl] at hsorted
    cases List.mem_append.1 hp' with
    | inl hp' => exact absurd hhier (by simpa using hbefore p hp')
    | inr hp' =>
      cases hp' with
      | head => exact UInt32.le_refl _
      | tail _ hp' =>
        have hlt := (List.pairwise_cons.1 (List.pairwise_append.1 hsorted).2.1).1 p hp'
        cases Qualifier.lt_def.1 hlt with
        | inl hlt => exact absurd (hmem.2.trans hhier.symm) (UInt16.ne_of_lt hlt)
        | inr hlt => exact UInt32.le_of_lt hlt.2

/-- Whatever is done with named sets, the increasing lists, the lists that are kept by search and
    the finite sets of members give the same answers and stay the same sets. -/
theorem run_refines {search : Search} (hsearch : Finds search) (start : Nat → Qualifiers)
    (ops : List Op) :
    let sets := canonical.run start ops
    let lists := (searched search).run (toList ∘ start) ops
    let finsets := members.run (toFinset ∘ start) ops
    sets.2 = finsets.2 ∧ lists.2 = finsets.2 ∧
      (∀ a, lists.1 a = (sets.1 a).toList ∧ (lists.1 a).Pairwise (· < ·)) ∧
      (∀ a q, q ∈ lists.1 a ↔ q ∈ finsets.1 a) ∧
      (∀ a q, containsBy search (lists.1 a) q ↔ q ∈ finsets.1 a) ∧
      (∀ a q, (sets.1 a).contains q ↔ q ∈ finsets.1 a) ∧
      (∀ a h, Lowest (finsets.1 a) h (firstIn (lists.1 a) h)) ∧
      (∀ a h, Lowest (finsets.1 a) h ((sets.1 a).inHierarchy? h)) ∧
      (∀ a b, finsets.1 a = finsets.1 b → lists.1 a = lists.1 b) := by
  intro sets lists finsets
  have hlists : lists = (toList ∘ sets.1, sets.2) := (translates_searched hsearch).run start ops
  have hfinsets : finsets = (toFinset ∘ sets.1, sets.2) := translates_members.run start ops
  rw [hlists, hfinsets]
  refine ⟨rfl, rfl, fun a => ⟨rfl, (sets.1 a).sorted⟩, fun a q => mem_toFinset.symm,
    fun a q => ?_, fun a q => ?_, fun a h => lowest_inHierarchy? (sets.1 a) h,
    fun a h => lowest_inHierarchy? (sets.1 a) h,
    fun a b hab => congrArg toList (toFinset_inj.1 hab)⟩
  · exact (Bool.eq_iff_iff.1 (containsBy_eq hsearch (sets.1 a).sorted q)).trans
      (decide_eq_true_iff.trans mem_toFinset.symm)
  · exact decide_eq_true_iff.trans mem_toFinset.symm

theorem run_refines_bisect : Finds bisect ∧
    ((searched bisect).run (toList ∘ fun _ => ∅)
      [.ofList 0 [⟨1, 2⟩, ⟨0, 1⟩, ⟨1, 2⟩], .single 1 ⟨1, 0⟩, .insert 1 ⟨1, 0⟩, .union 1 0,
        .union 1 0, .overlay 0 1]).2 =
      [none, none, some false, some true, some false, none] :=
  ⟨finds_bisect, (run_refines finds_bisect (fun _ => ∅) _).2.1.trans (by decide)⟩

end Qualifiers

end QualifiedInference
