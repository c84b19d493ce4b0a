-- SUMMARY: Lists of any items: splits at an item, places, and lists without repetitions.
import Mathlib.Data.List.Induction
import Mathlib.Data.List.Nodup
import Mathlib.Data.List.Pairwise
/-!
# Items in their order

What is said of each item of a list, or of each item and those before it, is said of all ways to
split the list at an item.
-/

namespace List

variable {α β : Type}

/-! ## Splits at an item -/

theorem forall_mem_iff_append_cons {P : α → Prop} {l : List α} :
    (∀ x ∈ l, P x) ↔ ∀ before x after, l = before ++ x :: after → P x := by
  constructor
  · rintro h before x after rfl
    exact h x (by simp)
  · intro h x hx
    obtain ⟨before, after, hl⟩ := append_of_mem hx
    exact h before x after hl

theorem pairwise_iff_append_cons {R : α → α → Prop} {l : List α} :
    l.Pairwise R ↔ ∀ before x after, l = before ++ x :: after → ∀ a ∈ before, R a x := by
  constructor
  · rintro h before x after rfl a ha
    exact (pairwise_append.1 h).2.2 a ha x (.head _)
  · intro h
    induction l with
    | nil => exact .nil
    | cons b l ih =>
      refine .cons (fun x hx => ?_) (ih fun before x after hl a ha =>
        h (b :: before) x after (congrArg (b :: ·) hl) a (.tail _ ha))
      obtain ⟨before, after, rfl⟩ := append_of_mem hx
      exact h (b :: before) x after rfl b (.head _)

/-- Only one place holds the first item that is not as the others before it. -/
theorem first_not_iff {P : α → Prop} {l before after : List α} {a : α}
    (hl : l = before ++ a :: after) (hbefore : ∀ b ∈ before, P b) (ha : ¬P a) {index : Nat} :
    ((∃ b, l[index]? = some b ∧ ¬P b) ∧ ∀ b ∈ l.take index, P b) ↔ before.length = index := by
  constructor
  · rintro ⟨⟨b, hb, hnot⟩, htake⟩
    rcases Nat.lt_trichotomy index before.length with hlt | heq | hgt
    · rw [hl, getElem?_append_left hlt] at hb
      exact absurd (hbefore b (mem_of_getElem? hb)) hnot
    · exact heq.symm
    · refine absurd (htake a ?_) ha
      rw [hl, take_append, mem_append]
      right
      obtain ⟨k, hk⟩ := Nat.exists_eq_add_of_lt hgt
      simp [hk, Nat.add_assoc]
  · rintro rfl
    exact ⟨⟨a, by simp [hl], ha⟩, by simpa [hl] using hbefore⟩

/-! ## Places -/

theorem getElem?_concat_eq_some_iff {l : List α} {a b : α} {i : Nat} :
    (l ++ [a])[i]? = some b ↔ l[i]? = some b ∨ i = l.length ∧ b = a := by
  rcases Nat.lt_trichotomy i l.length with hlt | rfl | hgt
  · simp [getElem?_append_left hlt, Nat.ne_of_lt hlt]
  · simp [eq_comm]
  · have hlen : (l ++ [a]).length ≤ i := by
      rw [length_append]
      exact hgt
    simp only [getElem?_eq_none hlen, getElem?_eq_none (Nat.le_of_lt hgt), Nat.ne_of_gt hgt,
      false_and, or_false]

theorem eq_of_mem_of_nodup_flatten {ls : List (List α)} (h : ls.flatten.Nodup) {a : α} {i k : Nat}
    {l l' : List α} (hi : ls[i]? = some l) (hk : ls[k]? = some l') (ha : a ∈ l) (ha' : a ∈ l') :
    i = k := by
  have hdisjoint := pairwise_iff_getElem.1 (nodup_flatten.1 h).2
  obtain ⟨hilt, rfl⟩ := getElem?_eq_some_iff.1 hi
  obtain ⟨hklt, rfl⟩ := getElem?_eq_some_iff.1 hk
  rcases Nat.lt_trichotomy i k with hlt | heq | hlt
  · exact absurd ha' (hdisjoint i k hilt hklt hlt ha)
  · exact heq
  · exact absurd ha (hdisjoint k i hklt hilt hlt ha')

theorem map_fst_zip_sublist (as : List α) (bs : List β) :
    ((as.zip bs).map Prod.fst).Sublist as := by
  induction as generalizing bs with
  | nil => simp
  | cons a as ih =>
    cases bs with
    | nil => simp
    | cons b bs => simpa using ih bs

/-! ## Without repetitions -/

section eraseDups

variable [DecidableEq α]

theorem eraseDups_concat (l : List α) (a : α) :
    (l ++ [a]).eraseDups = if a ∈ l then l.eraseDups else l.eraseDups ++ [a] := by
  rw [eraseDups_append]
  by_cases h : a ∈ l <;> simp [removeAll, h, eraseDups_cons]

theorem eraseDups_of_nodup {l : List α} (h : l.Nodup) : l.eraseDups = l := by
  induction l using reverseRecOn with
  | nil => rfl
  | append_singleton l a ih =>
    have hparts := nodup_append.1 h
    have ha : a ∉ l := fun ha => hparts.2.2 a ha a (.head _) rfl
    rw [eraseDups_concat, if_neg ha, ih hparts.1]

end eraseDups

end List
