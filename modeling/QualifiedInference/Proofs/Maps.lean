-- SUMMARY: Maps made of lists of entries: the keys in their order, the entries, and the values they hold.
import QualifiedInference.Proofs.Base.List
import QualifiedInference.TargetMap
/-!
# Maps made of lists

Entries are written into a map one after the other. So the map has the keys of the list in the order
of their first mention and no value that is not in the list, and it is the list itself where no key
has two entries. Maps over targets hold the same entries as ordered maps made of the same list
(`TargetMap.toOrdered_ofList`).
-/

namespace QualifiedInference

namespace OrderedMap

variable {κ α : Type} [DecidableEq κ]

theorem entries_insert (m : OrderedMap κ α) (k : κ) (a : α) :
    (m.insert k a).entries = upsertEntries k (fun _ => a) m.entries := rfl

theorem insert_insert (m : OrderedMap κ α) (k : κ) (a b : α) :
    (m.insert k a).insert k b = m.insert k b := by
  apply ext
  simp only [entries_insert]
  induction m.entries with
  | nil => simp [upsertEntries]
  | cons e es ih => by_cases h : e.1 = k <;> simp [upsertEntries, h, ih]

theorem ofList_concat (es : List (κ × α)) (e : κ × α) :
    ofList (es ++ [e]) = (ofList es).insert e.1 e.2 := List.foldl_concat ..

theorem keys_ofList (es : List (κ × α)) : (ofList es).keys = (es.map Prod.fst).eraseDups := by
  induction es using List.reverseRecOn with
  | nil => rfl
  | append_singleton es e ih =>
    rw [ofList_concat, keys_insert, List.map_append, List.map_singleton, List.eraseDups_concat]
    exact if_congr (by rw [mem_def, ih, List.mem_eraseDups]) ih (by rw [ih])

theorem entries_ofList {es : List (κ × α)} (h : (es.map Prod.fst).Nodup) :
    (ofList es).entries = es := by
  induction es using List.reverseRecOn with
  | nil => rfl
  | append_singleton es e ih =>
    rw [List.map_append] at h
    have hparts := List.nodup_append.1 h
    have he : e.1 ∉ es.map Prod.fst := fun he => hparts.2.2 e.1 he e.1 (.head _) rfl
    rw [ofList_concat, entries_insert, ih hparts.1]
    exact upsertEntries_of_not_mem he _

theorem mem_of_get?_ofList {es : List (κ × α)} {k : κ} {a : α} (h : (ofList es).get? k = some a) :
    (k, a) ∈ es := by
  induction es using List.reverseRecOn with
  | nil => cases h
  | append_singleton es e ih =>
    rw [ofList_concat, get?_insert] at h
    split at h
    · next hk => cases h; cases hk; simp
    · exact List.mem_append_left _ (ih h)

end OrderedMap

namespace TargetMap

variable {α : Type} {es : List (Target × α)} {t : Target}

theorem toOrdered_ofList (es : List (Target × α)) :
    (ofList es).toOrdered = OrderedMap.ofList es := by
  induction es using List.reverseRecOn with
  | nil => rfl
  | append_singleton es e ih =>
    rw [OrderedMap.ofList_concat, ← ih, ofList, List.foldl_concat]
    exact toOrdered_upsert ..

theorem keys_ofList (es : List (Target × α)) : (ofList es).keys = (es.map Prod.fst).eraseDups :=
  (congrArg OrderedMap.keys (toOrdered_ofList es)).trans (OrderedMap.keys_ofList es)

theorem entries_ofList (h : (es.map Prod.fst).Nodup) : (ofList es).entries = es :=
  (congrArg OrderedMap.entries (toOrdered_ofList es)).trans (OrderedMap.entries_ofList h)

theorem mem_of_get?_ofList {a : α} (h : (ofList es).get? t = some a) : (t, a) ∈ es := by
  rw [← get?_toOrdered, toOrdered_ofList] at h
  exact OrderedMap.mem_of_get?_ofList h

theorem get?_ofList_map (f : Target → α) (ts : List Target) (t : Target) :
    (ofList (ts.map fun t => (t, f t))).get? t = if t ∈ ts then some (f t) else none := by
  have hmem : t ∈ ofList (ts.map fun t => (t, f t)) ↔ t ∈ ts := by
    simp [mem_def, keys_ofList]
  split
  · next ht =>
    obtain ⟨a, ha⟩ := Option.isSome_iff_exists.1 ((isSome_get? _ t).2 (hmem.2 ht))
    obtain ⟨u, -, hu⟩ := List.mem_map.1 (mem_of_get?_ofList ha)
    cases hu
    exact ha
  · next ht => exact get?_eq_none_iff.2 (mt hmem.1 ht)

end TargetMap

end QualifiedInference
