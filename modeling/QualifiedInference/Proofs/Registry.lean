-- SUMMARY: The two tables of a registry of hierarchies, each the other one read backwards.
import QualifiedInference.Proofs.Validation.Registration
/-!
# The two tables of a registry

A registry has a table from places to names and one from names to places. A chain that is accepted
goes into both of them, at the end of the first; one that is refused into neither. So whatever
chains are offered in turn, each table is the other one read backwards (`offerEach_consistent`).
-/

namespace QualifiedInference

namespace Hierarchies

variable {hs : Hierarchies} {chains : List (List String)} {names : List String}

/-! ## One chain -/

theorem register_of_error {e : HierarchyError} (h : (hs.register names).1 = .error e) :
    (hs.register names).2 = hs := by
  rcases hs.register_cases names with ⟨⟨e', heq⟩, -⟩ | ⟨hs', heq, -⟩
  · rw [heq]
  · rw [heq] at h
    cases h

theorem register_of_ok {id : HierarchyId} (h : (hs.register names).1 = .ok id) :
    id = .ofNat hs.count ∧ (hs.register names).2.chains = hs.chains.push names.toArray := by
  rcases hs.register_cases names with ⟨⟨e, heq⟩, -⟩ | ⟨hs', heq, -, hchains, -⟩
  · rw [heq] at h
    cases h
  · rw [heq] at h ⊢
    cases h
    exact ⟨rfl, hchains⟩

theorem exists_error_iff : (∃ e, (hs.register names).1 = .error e) ↔
    ¬∃ id, (hs.register names).1 = .ok id := by
  cases (hs.register names).1 <;> simp

/-- A chain is refused for one of four reasons. -/
theorem Registers.exists_error_iff (h : hs.Registers chains) :
    (∃ e, (hs.register names).1 = .error e) ↔ names = [] ∨ hs.count = 65536 ∨ ¬names.Nodup ∨
      ∃ name ∈ names, ∃ q, hs.lookup? name = some q := by
  have hfull : ¬chains.length < 65536 ↔ hs.count = 65536 := by
    have := h.length_le
    rw [h.count]
    omega
  have hnodup : ¬(chains.flatten ++ names).Nodup ↔
      ¬names.Nodup ∨ ∃ name ∈ names, ∃ q, hs.lookup? name = some q := by
    simp only [h.exists_lookup_iff, ← List.mem_flatten, List.nodup_append, h.nodup, true_and,
      not_and_or]
    refine or_congr_right ?_
    constructor
    · intro hnot
      push Not at hnot
      obtain ⟨name, hold, _, hnew, rfl⟩ := hnot
      exact ⟨name, hnew, hold⟩
    · rintro ⟨name, hnew, hold⟩ hnot
      exact hnot name hold name hnew rfl
  rw [Hierarchies.exists_error_iff, h.exists_register_iff, not_and_or, not_and_or, hfull, hnodup,
    not_ne_iff]

/-! ## What a registry consists of -/

/-- The registry consists of these chains: it also has the name of each place in them. -/
structure ConsistsOf (hs : Hierarchies) (chains : List (List String)) : Prop extends
    hs.Registers chains where
  names : ∀ q, hs.name? q = chains[q.hierarchy.toNat]?.bind (·[q.rank.toNat]?)
  short : ∀ chain ∈ chains, chain.length < 4294967296

namespace ConsistsOf

theorem empty : ConsistsOf ∅ [] where
  toRegisters := .empty
  names q := by simp [name?, EmptyCollection.emptyCollection]
  short := nofun

theorem register (h : hs.ConsistsOf chains) (hlen : names.length < 4294967296) {id : HierarchyId}
    (hid : (hs.register names).1 = .ok id) :
    (hs.register names).2.ConsistsOf (chains ++ [names]) where
  toRegisters := h.toRegisters.register hid
  names q := by
    rw [name?_of_push (register_of_ok hid).2, h.names, h.count]
    split
    · next heq => simp [heq]
    · next hne =>
      rcases Nat.lt_or_gt_of_ne hne with hlt | hgt
      · rw [List.getElem?_append_left hlt]
      · rw [List.getElem?_eq_none (Nat.le_of_lt hgt),
          List.getElem?_eq_none (by rw [List.length_append]; exact hgt)]
  short chain hchain := by
    rcases List.mem_append.1 hchain with hchain | hchain
    · exact h.short chain hchain
    · exact List.mem_singleton.1 hchain ▸ hlen

/-- The two tables agree. -/
theorem lookup?_iff_name? (h : hs.ConsistsOf chains) (name : String) (q : Qualifier) :
    hs.lookup? name = some q ↔ hs.name? q = some name := by
  rw [h.lookup, h.names]
  constructor
  · rintro ⟨i, j, chain, hi, hj, rfl⟩
    have hilt : i < 65536 :=
      Nat.lt_of_lt_of_le (List.getElem?_eq_some_iff.1 hi).1 h.length_le
    have hjlt : j < 4294967296 :=
      Nat.lt_trans (List.getElem?_eq_some_iff.1 hj).1 (h.short chain (List.mem_of_getElem? hi))
    have hhierarchy : (UInt16.ofNat i).toNat = i := Nat.mod_eq_of_lt hilt
    have hrank : (UInt32.ofNat j).toNat = j := Nat.mod_eq_of_lt hjlt
    rw [hhierarchy, hrank, hi]
    exact hj
  · intro hname
    obtain ⟨chain, hi, hj⟩ := Option.bind_eq_some_iff.1 hname
    exact ⟨_, _, chain, hi, hj, by rw [UInt16.ofNat_toNat, UInt32.ofNat_toNat]⟩

/-- A name stands for its chain and its place there. -/
theorem lookup?_of_mem (h : hs.ConsistsOf chains) {i j : Nat} {chain : List String} {name : String}
    (hi : chains[i]? = some chain) (hj : chain[j]? = some name) :
    hs.lookup? name = some ⟨.ofNat i, .ofNat j⟩ :=
  (h.lookup _ _).2 ⟨i, j, chain, hi, hj, rfl⟩

end ConsistsOf

theorem mem_tops {q : Qualifier} :
    q ∈ hs.tops ↔ q = .top q.hierarchy ∧ q.hierarchy.toNat < hs.count := by
  rw [Qualifiers.mem_def, tops, List.mem_map]
  simp only [List.mem_range]
  constructor
  · rintro ⟨i, hi, rfl⟩
    exact ⟨rfl, Nat.lt_of_le_of_lt (Nat.mod_le ..) hi⟩
  · rintro ⟨htop, hlt⟩
    exact ⟨q.hierarchy.toNat, hlt, by rw [UInt16.ofNat_toNat, ← htop]⟩

theorem size_tops : hs.tops.size = hs.count := by
  rw [Qualifiers.size, tops, List.length_map, List.length_range]

/-! ## Chains in turn -/

/-- The registry after these chains have been offered to it, one after the other. -/
def offerEach (hs : Hierarchies) (offers : List (List String)) : Hierarchies :=
  offers.foldl (fun hs names => (hs.register names).2) hs

/-- The chains among these that are accepted. -/
def accepted (hs : Hierarchies) : List (List String) → List (List String)
  | [] => []
  | names :: rest =>
    match (hs.register names).1 with
    | .ok _ => names :: (hs.register names).2.accepted rest
    | .error _ => (hs.register names).2.accepted rest

theorem accepted_append (hs : Hierarchies) (before after : List (List String)) :
    hs.accepted (before ++ after) = hs.accepted before ++ (hs.offerEach before).accepted after := by
  induction before generalizing hs with
  | nil => rfl
  | cons names before ih =>
    simp only [List.cons_append, accepted, offerEach, List.foldl_cons]
    cases (hs.register names).1 with
    | ok id => exact congrArg (names :: ·) (ih _)
    | error e => exact ih _

/-- Whatever is offered, the registry consists of what it did before and the chains accepted. -/
theorem ConsistsOf.offerEach (h : hs.ConsistsOf chains) {offers : List (List String)}
    (hlen : ∀ names ∈ offers, names.length < 4294967296) :
    (hs.offerEach offers).ConsistsOf (chains ++ hs.accepted offers) := by
  induction offers generalizing hs chains with
  | nil => rwa [accepted, List.append_nil]
  | cons names rest ih =>
    have hrest : ∀ names ∈ rest, names.length < 4294967296 := fun x hx => hlen x (.tail _ hx)
    simp only [Hierarchies.offerEach, List.foldl_cons, accepted]
    cases hid : (hs.register names).1 with
    | ok id =>
      rw [List.append_cons]
      exact ih (h.register (hlen names (.head _)) hid) hrest
    | error e =>
      rw [register_of_error hid]
      exact ih h hrest

/-- A registry that chains have been offered to consists of those accepted: a name stands for a
    place just if it is the name of that place. Each chain was refused for one of four reasons, and
    nothing was changed then; or it was given the number of those accepted before it, and its names
    stand for their places from then on. -/
theorem offerEach_consistent (offers : List (List String))
    (hlen : ∀ names ∈ offers, names.length < 4294967296) :
    let hs := offerEach ∅ offers
    (∀ name q, hs.lookup? name = some q ↔ hs.name? q = some name) ∧
    (∀ q, hs.name? q = (accepted ∅ offers)[q.hierarchy.toNat]?.bind (·[q.rank.toNat]?)) ∧
    hs.count = (accepted ∅ offers).length ∧
    (hs.tops.size = hs.count ∧
      ∀ q, q ∈ hs.tops ↔ q = .top q.hierarchy ∧ q.hierarchy.toNat < hs.count) ∧
    ∀ before names after, offers = before ++ names :: after →
      let now := offerEach ∅ before
      ((∃ e, (now.register names).1 = .error e) ↔ names = [] ∨ now.count = 65536 ∨
        ¬names.Nodup ∨ ∃ name ∈ names, ∃ q, now.lookup? name = some q) ∧
      (∀ e, (now.register names).1 = .error e → (now.register names).2 = now) ∧
      ∀ id, (now.register names).1 = .ok id → id.toNat = (accepted ∅ before).length ∧
        ∀ j name, names[j]? = some name →
          ∃ q, hs.lookup? name = some q ∧ q.hierarchy = id ∧ q.rank.toNat = j := by
  intro hs
  have hconsists : hs.ConsistsOf (accepted ∅ offers) := ConsistsOf.empty.offerEach hlen
  refine ⟨hconsists.lookup?_iff_name?, hconsists.names, hconsists.count,
    ⟨size_tops, fun q => mem_tops⟩, ?_⟩
  intro before names after hoffers
  have hnow : (offerEach ∅ before).ConsistsOf (accepted ∅ before) :=
    ConsistsOf.empty.offerEach fun x hx => hlen x (by rw [hoffers]; simp [hx])
  refine ⟨hnow.exists_error_iff, fun e => register_of_error, fun id hid => ?_⟩
  obtain ⟨rfl, -⟩ := register_of_ok hid
  have hroom : (accepted ∅ before).length < 65536 := (hnow.exists_register_iff.1 ⟨_, hid⟩).2.1
  have hplace : (accepted ∅ offers)[(accepted ∅ before).length]? = some names := by
    rw [hoffers, accepted_append, List.getElem?_append_right (Nat.le_refl _), Nat.sub_self,
      accepted]
    simp only [hid, List.getElem?_cons_zero]
  rw [hnow.count]
  refine ⟨Nat.mod_eq_of_lt hroom, fun j name hj => ?_⟩
  have hjlt : j < 4294967296 := Nat.lt_trans (List.getElem?_eq_some_iff.1 hj).1
    (hlen names (by rw [hoffers]; simp))
  exact ⟨_, hconsists.lookup?_of_mem hplace hj, rfl, Nat.mod_eq_of_lt hjlt⟩

/-- Five offers, of which the first and the last are accepted. -/
def twoOfFive : List (List String) :=
  [["Nullable", "NonNull"], [], ["Tainted", "Tainted"], ["NonNull"], ["Tainted", "Untainted"]]

theorem offerEach_consistent_twoOfFive :
    let hs := offerEach ∅ twoOfFive
    (∀ names ∈ twoOfFive, names.length < 4294967296) ∧ hs.count = 2 ∧
      (∃ q, hs.lookup? "Untainted" = some q ∧ q.hierarchy = 1 ∧ q.rank.toNat = 1) ∧
      ∀ name q, hs.lookup? name = some q ↔ hs.name? q = some name := by
  intro hs
  have hlen : ∀ names ∈ twoOfFive, names.length < 4294967296 := by decide
  have hlast : ((offerEach ∅ (twoOfFive.take 4)).register ["Tainted", "Untainted"]).1 = .ok 1 := by
    simp [offerEach, twoOfFive, register, firstRepeated?, indexFrom, UInt16.size,
      EmptyCollection.emptyCollection]
  have haccepted : (accepted ∅ twoOfFive).length = 2 := by
    simp [accepted, twoOfFive, register, firstRepeated?, indexFrom, UInt16.size,
      EmptyCollection.emptyCollection]
  obtain ⟨htables, -, hcount, -, heach⟩ := offerEach_consistent twoOfFive hlen
  obtain ⟨-, -, htaken⟩ := heach (twoOfFive.take 4) ["Tainted", "Untainted"] [] rfl
  exact ⟨hlen, hcount.trans haccepted, (htaken 1 hlast).2 1 "Untainted" rfl, htables⟩

end Hierarchies

end QualifiedInference
