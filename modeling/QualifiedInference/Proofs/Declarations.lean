-- SUMMARY: Declared types as a forest, after any sequence of declarations.
import QualifiedInference.Proofs.NominalTypes
/-!
# Declarations form a forest

A declaration is refused where its name is declared already or its supertype is not; otherwise it
adds a name whose supertype was there before. So the way from a name up to its supertypes, one by
one, is through its ancestors (`getElem?_ancestors`): it comes to an end, and to no name twice. That
holds after any declarations, refused ones among them (`isForest_declareEach`).
-/

namespace QualifiedInference

namespace NominalTypes

variable {d d' : NominalTypes} {name super x : String} {super? : Option String}

/-! ## The way up -/

/-- The name that is reached after so many steps, each to the declared supertype. -/
def above? (d : NominalTypes) (name : String) : Nat → Option String
  | 0 => some name
  | n + 1 => (d.above? name n).bind d.supertype?

theorem getElem?_one_ancestors (name : String) : (d.ancestors name)[1]? = d.supertype? name := by
  rw [ancestors_eq, List.getElem?_cons_succ]
  cases d.supertype? name with
  | none => rfl
  | some super => rw [Option.map_some, Option.getD_some, ancestors_eq]; rfl

theorem drop_ancestors {n : Nat} (h : (d.ancestors name)[n]? = some x) :
    (d.ancestors name).drop n = d.ancestors x := by
  obtain ⟨hlt, hx⟩ := List.getElem?_eq_some_iff.1 h
  have hdrop : (d.ancestors name).drop n = x :: (d.ancestors name).drop (n + 1) := by
    rw [List.drop_eq_getElem_cons hlt, hx]
  have hsplit : d.ancestors name =
      (d.ancestors name).take n ++ x :: (d.ancestors name).drop (n + 1) := by
    rw [← hdrop, List.take_append_drop]
  rw [hdrop, d.ancestors_suffix hsplit]

/-- The ancestors of a name are those on the way up from it. -/
theorem getElem?_ancestors (name : String) (n : Nat) :
    (d.ancestors name)[n]? = d.above? name n := by
  induction n with
  | zero => rw [ancestors_eq]; rfl
  | succ n ih =>
    rw [above?, ← ih]
    cases hx : (d.ancestors name)[n]? with
    | none =>
      rw [List.getElem?_eq_none_iff] at hx
      exact List.getElem?_eq_none (Nat.le_succ_of_le hx)
    | some x => rw [← List.getElem?_drop, drop_ancestors hx, getElem?_one_ancestors]; rfl

/-- The way up comes to no name twice, since what is left of it is told by the name. -/
theorem above?_injective {m n : Nat} (hm : d.above? name m = some x)
    (hn : d.above? name n = some x) : m = n := by
  rw [← getElem?_ancestors] at hm hn
  have hlen := congrArg List.length ((drop_ancestors hm).trans (drop_ancestors hn).symm)
  have hmlt := (List.getElem?_eq_some_iff.1 hm).1
  have hnlt := (List.getElem?_eq_some_iff.1 hn).1
  simp only [List.length_drop] at hlen
  omega

theorem length_ancestorsIn_le (ds : List (String × Option String)) (name : String) :
    (ancestorsIn ds name).length ≤ ds.length + 1 := by
  induction ds generalizing name with
  | nil => exact Nat.le_refl _
  | cons e rest ih =>
    obtain ⟨n, super?⟩ := e
    unfold ancestorsIn
    split
    · cases super? with
      | none => simp
      | some super => exact Nat.succ_le_succ (ih super)
    · exact Nat.le_succ_of_le (ih name)

theorem above?_eq_none (name : String) : d.above? name (d.names.length + 1) = none := by
  rw [← getElem?_ancestors]
  apply List.getElem?_eq_none
  rw [names, List.length_map]
  exact length_ancestorsIn_le d.declarations name

theorem isSubtype_iff_above? {sub super : String} :
    d.isSubtype sub super = true ↔ ∃ n, d.above? sub n = some super := by
  simp only [isSubtype_iff, List.mem_iff_getElem?, getElem?_ancestors]

theorem isDeclared_iff : d.isDeclared name = true ↔ name ∈ d.names := decide_eq_true_iff

theorem isDeclared_of_isSubtype {sub super : String} (h : d.isSubtype sub super = true)
    (hsub : d.isDeclared sub = true) : d.isDeclared super = true := by
  obtain ⟨n, hn⟩ := isSubtype_iff_above?.1 h
  cases n with
  | zero =>
    cases hn
    exact hsub
  | succ n =>
    obtain ⟨x, -, hx⟩ := Option.bind_eq_some_iff.1 hn
    exact isDeclared_iff.2 (mem_of_valueIn?_join d.inOrder hx)

/-! ## Declaring -/

theorem eq_iff_declarations : d = d' ↔ d.declarations = d'.declarations := by
  constructor
  · exact congrArg declarations
  · cases d; cases d'
    rintro ⟨⟩
    rfl

theorem declare_eq_ok_iff : d.declare name super? = .ok d' ↔
    name ∉ d.names ∧ (∀ super, super? = some super → super ∈ d.names) ∧
      d'.declarations = (name, super?) :: d.declarations := by
  unfold declare
  split
  · next hold => simp [hold]
  · next hnew =>
    cases super? with
    | none => simp [hnew, eq_iff_declarations, eq_comm]
    | some super =>
      by_cases hsuper : super ∈ d.names
      · simp [hnew, hsuper, eq_iff_declarations, eq_comm]
      · simp [hsuper]

theorem declare_eq_error_iff {e : DeclarationError} : d.declare name super? = .error e ↔
    name ∈ d.names ∧ e = .repeated name ∨
      name ∉ d.names ∧ ∃ super, super? = some super ∧ super ∉ d.names ∧
        e = .unknownSupertype name super := by
  unfold declare
  split
  · next hold => simp [hold, eq_comm]
  · next hnew =>
    cases super? with
    | none => simp [hnew]
    | some super =>
      by_cases hsuper : super ∈ d.names
      · simp [hnew, hsuper]
      · simp [hnew, hsuper, eq_comm]

theorem exists_declare_iff : (∃ d', d.declare name super? = .ok d') ↔
    name ∉ d.names ∧ ∀ super, super? = some super → super ∈ d.names := by
  constructor
  · rintro ⟨d', h⟩
    obtain ⟨hnew, hsuper, -⟩ := declare_eq_ok_iff.1 h
    exact ⟨hnew, hsuper⟩
  · rintro ⟨hnew, hsuper⟩
    cases h : d.declare name super? with
    | ok d' => exact ⟨d', rfl⟩
    | error e =>
      rcases declare_eq_error_iff.1 h with ⟨hold, -⟩ | ⟨-, super, heq, hundeclared, -⟩
      · exact absurd hold hnew
      · exact absurd (hsuper super heq) hundeclared

theorem isDeclared_of_declare (h : d.declare name super? = .ok d') (x : String) :
    d'.isDeclared x = true ↔ x = name ∨ d.isDeclared x = true := by
  obtain ⟨-, -, hds⟩ := declare_eq_ok_iff.1 h
  rw [isDeclared_iff, isDeclared_iff, names, hds]
  exact List.mem_cons

theorem supertype?_of_declare (h : d.declare name super? = .ok d') (x : String) :
    d'.supertype? x = if x = name then super? else d.supertype? x := by
  obtain ⟨-, -, hds⟩ := declare_eq_ok_iff.1 h
  simp only [supertype?, hds, OrderedMap.valueIn?, eq_comm (a := x)]
  split
  · rfl
  · rfl

/-! ## Declarations in turn -/

/-- The types after one more declaration, which may be refused. -/
def offer (d : NominalTypes) (decl : String × Option String) : NominalTypes :=
  match d.declare decl.1 decl.2 with
  | .ok d' => d'
  | .error _ => d

/-- The types that are declared by these declarations, one after the other, as far as they are not
    refused. -/
def declareEach (decls : List (String × Option String)) : NominalTypes := decls.foldl offer ∅

theorem declareEach_concat (decls : List (String × Option String)) (name : String)
    (super? : Option String) :
    declareEach (decls ++ [(name, super?)]) = (declareEach decls).offer (name, super?) := by
  simp [declareEach]

/-- Supertypes lead up from each name, one by one, along a way that ends. -/
structure IsForest (d : NominalTypes) : Prop where
  ends : ∀ name, d.above? name (d.names.length + 1) = none
  apart : ∀ name x m n, d.above? name m = some x → d.above? name n = some x → m = n
  /-- A subtype is a name from which the way leads up to the other one. -/
  subtype : ∀ sub super, d.isSubtype sub super = true ↔ ∃ n, d.above? sub n = some super
  declared : ∀ sub super, d.isDeclared sub = true → d.isSubtype sub super = true →
    d.isDeclared super = true
  refl : ∀ name, d.isSubtype name name = true
  trans : ∀ a b c, d.isSubtype a b = true → d.isSubtype b c = true → d.isSubtype a c = true
  antisymm : ∀ a b, d.isSubtype a b = true → d.isSubtype b a = true → a = b
  /-- What is above one name is a chain. -/
  total : ∀ name a b, d.isSubtype name a = true → d.isSubtype name b = true →
    d.isSubtype a b = true ∨ d.isSubtype b a = true

theorem isForest (d : NominalTypes) : d.IsForest where
  ends := above?_eq_none
  apart _ _ _ _ := above?_injective
  subtype _ _ := isSubtype_iff_above?
  declared _ _ hsub h := isDeclared_of_isSubtype h hsub
  refl := d.isSubtype_refl
  trans _ _ _ := d.isSubtype_trans
  antisymm _ _ := d.isSubtype_antisymm
  total _ _ _ := d.isSubtype_or_of_isSubtype

/-- After any declarations the declared types form a forest. One more is refused if its name is
    declared or its supertype is not, and then changes nothing; otherwise it adds its name and the
    supertype of that name, and leaves all others. -/
theorem isForest_declareEach (decls : List (String × Option String)) :
    (declareEach decls).IsForest ∧ ∀ name super?,
      let d := declareEach decls
      let d' := declareEach (decls ++ [(name, super?)])
      ((∃ e, d.declare name super? = .error e) ∧
          (d.isDeclared name = true ∨ ∃ super, super? = some super ∧ d.isDeclared super = false) ∧
          d' = d) ∨
        (d.declare name super? = .ok d' ∧ d.isDeclared name = false ∧
          (∀ super, super? = some super → d.isDeclared super = true) ∧
          (∀ x, d'.isDeclared x = true ↔ x = name ∨ d.isDeclared x = true) ∧
          ∀ x, d'.supertype? x = if x = name then super? else d.supertype? x) := by
  refine ⟨isForest _, fun name super? => ?_⟩
  intro d d'
  have hd' : d' = d.offer (name, super?) := declareEach_concat decls name super?
  simp only [← Bool.not_eq_true, isDeclared_iff]
  cases h : d.declare name super? with
  | error e =>
    rw [offer, h] at hd'
    refine .inl ⟨⟨e, rfl⟩, ?_, hd'⟩
    rcases declare_eq_error_iff.1 h with ⟨hold, -⟩ | ⟨-, super, hsuper, hundeclared, -⟩
    · exact .inl hold
    · exact .inr ⟨super, hsuper, hundeclared⟩
  | ok next =>
    rw [offer, h] at hd'
    obtain ⟨hnew, hsuper, -⟩ := declare_eq_ok_iff.1 h
    refine .inr ⟨congrArg _ hd'.symm, hnew, hsuper, fun x => ?_, fun x => ?_⟩
    · simpa only [hd', isDeclared_iff] using isDeclared_of_declare h x
    · rw [hd']
      exact supertype?_of_declare h x

/-- A name cannot be its own supertype, nor be declared twice. -/
example :
    (declareEach [("A", some "A"), ("A", none), ("B", some "A"), ("A", some "B")]).above? "B" 1 =
      some "A" := by decide

end NominalTypes

end QualifiedInference
