-- SUMMARY: Finite sets of qualifiers as strictly increasing lists, with overlays hierarchy by hierarchy.
import QualifiedInference.Qualifier
/-!
# Sets of qualifiers

A set is kept as its strictly increasing list of members, so sets with the same members
are equal. `overlay` replaces a set hierarchy by hierarchy.
-/

namespace QualifiedInference

structure Qualifiers where
  toList : List Qualifier
  sorted : toList.Pairwise (· < ·)
deriving DecidableEq

namespace Qualifiers

instance : EmptyCollection Qualifiers := ⟨⟨[], .nil⟩⟩

instance : Inhabited Qualifiers := ⟨∅⟩

instance : Membership Qualifier Qualifiers := ⟨fun s q => q ∈ s.toList⟩

theorem mem_def {s : Qualifiers} {q : Qualifier} : q ∈ s ↔ q ∈ s.toList := Iff.rfl

instance (s : Qualifiers) (q : Qualifier) : Decidable (q ∈ s) :=
  inferInstanceAs (Decidable (q ∈ s.toList))

def isEmpty (s : Qualifiers) : Bool := s.toList.isEmpty

def size (s : Qualifiers) : Nat := s.toList.length

def contains (s : Qualifiers) (q : Qualifier) : Bool := decide (q ∈ s)

/-! ## Adding members -/

/-- Puts `q` into its place, unless it is there. -/
def insertSorted (q : Qualifier) : List Qualifier → List Qualifier
  | [] => [q]
  | p :: ps =>
    if q < p then q :: p :: ps
    else if q = p then p :: ps
    else p :: insertSorted q ps

theorem mem_insertSorted {q x : Qualifier} {l : List Qualifier} :
    x ∈ insertSorted q l ↔ x = q ∨ x ∈ l := by
  induction l with
  | nil => simp [insertSorted]
  | cons p ps ih =>
    unfold insertSorted
    split
    · simp
    · split
      · next h => simp [h]
      · simp only [List.mem_cons, ih]
        grind

theorem pairwise_insertSorted (q : Qualifier) {l : List Qualifier}
    (h : l.Pairwise (· < ·)) : (insertSorted q l).Pairwise (· < ·) := by
  induction h with
  | nil => simp [insertSorted]
  | @cons p ps hp hps ih =>
    unfold insertSorted
    split
    · next hq =>
      refine .cons (fun x hx => ?_) (.cons hp hps)
      rcases List.mem_cons.1 hx with rfl | hx
      · exact hq
      · exact Qualifier.lt_trans hq (hp x hx)
    · next hq =>
      split
      · exact .cons hp hps
      · next hne =>
        refine .cons (fun x hx => ?_) ih
        rcases mem_insertSorted.1 hx with rfl | hx
        · exact Qualifier.lt_of_not_lt_of_ne hq hne
        · exact hp x hx

theorem insertSorted_of_mem {q : Qualifier} {l : List Qualifier} (h : l.Pairwise (· < ·))
    (hq : q ∈ l) : insertSorted q l = l := by
  induction h with
  | nil => cases hq
  | @cons p ps hp hps ih =>
    unfold insertSorted
    rcases List.mem_cons.1 hq with rfl | hq
    · rw [if_neg (Qualifier.lt_irrefl q), if_pos rfl]
    · have hlt := hp q hq
      have hnlt : ¬q < p := fun h => Qualifier.lt_irrefl q (Qualifier.lt_trans h hlt)
      have hne : q ≠ p := by
        rintro rfl
        exact Qualifier.lt_irrefl q hlt
      rw [if_neg hnlt, if_neg hne, ih hq]

def insert (s : Qualifiers) (q : Qualifier) : Qualifiers :=
  ⟨insertSorted q s.toList, pairwise_insertSorted q s.sorted⟩

theorem mem_insert {s : Qualifiers} {q x : Qualifier} : x ∈ s.insert q ↔ x = q ∨ x ∈ s :=
  mem_insertSorted

theorem insert_of_mem {s : Qualifiers} {q : Qualifier} (h : q ∈ s) : s.insert q = s := by
  obtain ⟨l, hl⟩ := s
  simp only [insert, insertSorted_of_mem hl h]

/-- Inserts `q` and tells whether it was new. -/
def add (s : Qualifiers) (q : Qualifier) : Qualifiers × Bool :=
  (s.insert q, !s.contains q)

/-- Adds every member of `t` and tells whether some member was new. -/
def addAll (s t : Qualifiers) : Qualifiers × Bool :=
  t.toList.foldl (fun acc q => let (s', new) := acc.1.add q; (s', acc.2 || new)) (s, false)

def union (s t : Qualifiers) : Qualifiers := t.toList.foldl insert s

theorem mem_foldl_insert {qs : List Qualifier} {s : Qualifiers} {x : Qualifier} :
    x ∈ qs.foldl insert s ↔ x ∈ s ∨ x ∈ qs := by
  induction qs generalizing s with
  | nil => simp
  | cons q qs ih =>
    rw [List.foldl_cons, ih, mem_insert, List.mem_cons, or_comm (a := x = q), or_assoc]

theorem mem_union {s t : Qualifiers} {x : Qualifier} : x ∈ s.union t ↔ x ∈ s ∨ x ∈ t :=
  mem_foldl_insert

theorem union_of_subset {s t : Qualifiers} (h : ∀ q ∈ t, q ∈ s) : s.union t = s := by
  suffices hfold : ∀ qs : List Qualifier, (∀ q ∈ qs, q ∈ s) → qs.foldl insert s = s from
    hfold t.toList h
  intro qs hqs
  induction qs with
  | nil => rfl
  | cons q qs ih =>
    rw [List.foldl_cons, insert_of_mem (hqs q (.head _))]
    exact ih fun x hx => hqs x (.tail _ hx)

def singleton (q : Qualifier) : Qualifiers := insert ∅ q

def ofList (qs : List Qualifier) : Qualifiers := qs.foldl insert ∅

/-! ## Hierarchy by hierarchy -/

/-- The member of least rank in a hierarchy. -/
def inHierarchy? (s : Qualifiers) (h : HierarchyId) : Option Qualifier :=
  s.toList.find? (·.hierarchy == h)

def filter (s : Qualifiers) (keep : Qualifier → Bool) : Qualifiers :=
  ⟨s.toList.filter keep, s.sorted.filter keep⟩

/-- The members of `t`, and those of `s` whose hierarchy `t` does not mention. -/
def overlay (s t : Qualifiers) : Qualifiers :=
  (s.filter fun q => (t.inHierarchy? q.hierarchy).isNone).union t

/-! ## Comparing and writing -/

/-- Lexicographic on the increasing lists of members. -/
def compare (s t : Qualifiers) : Ordering := List.compareLex Ord.compare s.toList t.toList

def describe (s : Qualifiers) : String :=
  "\x7b" ++ ", ".intercalate (s.toList.map Qualifier.describe) ++ "\x7d"

end Qualifiers

end QualifiedInference
