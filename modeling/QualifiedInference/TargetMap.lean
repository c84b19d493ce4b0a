-- SUMMARY: Insertion-ordered maps of targets that find an entry by its place.
import QualifiedInference.BitTrie
import QualifiedInference.OrderedMap
import QualifiedInference.Target
/-!
# Insertion-ordered maps of targets

An `OrderedMap` of targets that finds the entry of a target without walking the others: it
knows the place of each. `toOrdered` forgets the places. `get?_toOrdered` and
`toOrdered_upsert` say that reading and writing agree with the ordered map, and `ext` that the
places follow from the entries.
-/

namespace QualifiedInference

namespace TargetMap

/-- Where each of the keys stands in their list. -/
def Places (keys : List Target) : Type :=
  { p : BitTrie Nat // ∀ t n, p.get? t.id.toNat = some n ↔ keys[n]? = some t }

namespace Places

variable {keys : List Target}

def empty : Places [] := ⟨∅, fun t n => by simp [BitTrie.get?_empty]⟩

theorem get?_eq (p q : Places keys) (t : Target) :
    p.1.get? t.id.toNat = q.1.get? t.id.toNat :=
  Option.ext fun n => (p.2 t n).trans (q.2 t n).symm

/-- Appends a key at the place `n`. -/
def push (p : Places keys) (n : Nat) {t : Target} (ht : t ∉ keys) (hn : n = keys.length) :
    Places (keys ++ [t]) :=
  ⟨p.1.insert t.id.toNat n, fun u k => by
    subst hn
    have hid : u.id.toNat = t.id.toNat ↔ u = t :=
      ⟨fun h => by cases u; cases t; cases UInt32.toNat_inj.1 h; rfl, fun h => h ▸ rfl⟩
    simp only [BitTrie.get?_insert, List.getElem?_append]
    simp only [hid]
    split
    · next hu =>
      subst hu
      have hne : keys[k]? ≠ some u := fun h => ht (List.mem_of_getElem? h)
      grind
    · next hu =>
      rw [p.2 u k]
      grind⟩

end Places

end TargetMap

structure TargetMap (α : Type) where
  slots : Array (Target × α)
  nodup_keys : (slots.toList.map Prod.fst).Nodup
  /-- Squashed, since the entries alone tell two maps apart. -/
  places : Squash (TargetMap.Places (slots.toList.map Prod.fst))

namespace TargetMap

variable {α : Type}

def entries (m : TargetMap α) : List (Target × α) := m.slots.toList

def keys (m : TargetMap α) : List Target := m.entries.map Prod.fst

def values (m : TargetMap α) : List α := m.entries.map Prod.snd

def size (m : TargetMap α) : Nat := m.slots.size

def isEmpty (m : TargetMap α) : Bool := m.slots.isEmpty

protected def empty : TargetMap α := ⟨#[], .nil, Squash.mk .empty⟩

instance : EmptyCollection (TargetMap α) := ⟨TargetMap.empty⟩

instance : Inhabited (TargetMap α) := ⟨∅⟩

instance : Membership Target (TargetMap α) := ⟨fun m t => t ∈ m.keys⟩

theorem keys_nodup (m : TargetMap α) : m.keys.Nodup := m.nodup_keys

theorem mem_def {m : TargetMap α} {t : Target} : t ∈ m ↔ t ∈ m.keys := Iff.rfl

instance (m : TargetMap α) (t : Target) : Decidable (t ∈ m) :=
  inferInstanceAs (Decidable (t ∈ m.keys))

theorem ext {m m' : TargetMap α} (h : m.entries = m'.entries) : m = m' := by
  obtain ⟨slots, _, places⟩ := m
  obtain ⟨slots', _, places'⟩ := m'
  obtain rfl : slots = slots' := Array.toList_inj.1 h
  rw [Subsingleton.elim places places']

def place? (m : TargetMap α) (t : Target) : Option Nat :=
  Quot.lift (fun p : Places _ => p.1.get? t.id.toNat) (fun p q _ => p.get?_eq q t) m.places

theorem place?_eq_some_iff (m : TargetMap α) (t : Target) (n : Nat) :
    m.place? t = some n ↔ m.keys[n]? = some t := by
  obtain ⟨slots, _, places⟩ := m
  induction places using Quot.ind with
  | mk p => exact p.2 t n

theorem not_mem_of_place?_eq_none {m : TargetMap α} {t : Target} (h : m.place? t = none) :
    t ∉ m := by
  intro ht
  obtain ⟨n, hn⟩ := List.getElem?_of_mem ht
  simp only [← m.place?_eq_some_iff, h] at hn
  cases hn

def get? (m : TargetMap α) (t : Target) : Option α :=
  match m.place? t with
  | none => none
  | some n => m.slots[n]?.map Prod.snd

def contains (m : TargetMap α) (t : Target) : Bool := (m.get? t).isSome

/-! ## Writing -/

theorem keys_modify (slots : Array (Target × α)) (n : Nat) (f : α → α) :
    (slots.modify n fun e => (e.1, f e.2)).toList.map Prod.fst = slots.toList.map Prod.fst := by
  apply List.ext_getElem?
  intro k
  simp only [Array.toList_modify, List.getElem?_map, List.getElem?_modify]
  cases slots.toList[k]? with
  | none => rfl
  | some e => simp only [Option.map_some]; split <;> rfl

theorem keys_push (slots : Array (Target × α)) (t : Target) (a : α) :
    (slots.push (t, a)).toList.map Prod.fst = slots.toList.map Prod.fst ++ [t] := by
  simp

/-- Replaces the value at `t` by `f` of it; `f none` is appended when `t` is absent. -/
def upsert (m : TargetMap α) (t : Target) (f : Option α → α) : TargetMap α :=
  match h : m.place? t with
  | some n => {
      slots := m.slots.modify n fun e => (e.1, f (some e.2))
      nodup_keys := (keys_modify m.slots n fun a => f (some a)) ▸ m.nodup_keys
      places := (keys_modify m.slots n fun a => f (some a)) ▸ m.places }
  | none =>
    let n := m.slots.size
    { slots := m.slots.push (t, f none)
      nodup_keys := by
        simp only [keys_push, List.nodup_append]
        exact ⟨m.nodup_keys, by simp, fun u hu v hv huv =>
          not_mem_of_place?_eq_none h (List.mem_singleton.1 hv ▸ huv ▸ hu)⟩
      places := keys_push m.slots t (f none) ▸
        Quot.lift (fun p => Squash.mk (p.push n (not_mem_of_place?_eq_none h) (by simp [n])))
          (fun _ _ _ => Subsingleton.elim _ _) m.places }

def insert (m : TargetMap α) (t : Target) (a : α) : TargetMap α := m.upsert t fun _ => a

/-- Leaves a value that is already there as it is. -/
def insertIfNew (m : TargetMap α) (t : Target) (a : α) : TargetMap α :=
  m.upsert t fun old => old.getD a

/-- Changes the value at `t`, if there is one. -/
def modify (m : TargetMap α) (t : Target) (f : α → α) : TargetMap α :=
  match m.get? t with
  | none => m
  | some a => m.insert t (f a)

def ofList (es : List (Target × α)) : TargetMap α := es.foldl (fun m e => m.insert e.1 e.2) ∅

/-! ## The ordered map -/

/-- The same entries in the same order. -/
def toOrdered (m : TargetMap α) : OrderedMap Target α := ⟨m.entries, m.nodup_keys⟩

theorem get?_toOrdered (m : TargetMap α) (t : Target) : m.toOrdered.get? t = m.get? t := by
  unfold get? OrderedMap.get?
  split
  · next h =>
    have hnone := not_mem_of_place?_eq_none h
    rw [mem_def, keys, ← OrderedMap.isSome_valueIn?, Bool.not_eq_true, Option.isSome_eq_false_iff,
      Option.isNone_iff_eq_none] at hnone
    exact hnone
  · next n h =>
    have hval := OrderedMap.valueIn?_of_getElem? m.nodup_keys ((m.place?_eq_some_iff t n).1 h)
    rwa [Array.getElem?_toList] at hval

theorem entries_upsert (m : TargetMap α) (t : Target) (f : Option α → α) :
    (m.upsert t f).entries = OrderedMap.upsertEntries t f m.entries := by
  unfold upsert
  split
  · next n h =>
    have hn := (m.place?_eq_some_iff t n).1 h
    simp [entries, OrderedMap.upsertEntries_of_getElem? m.nodup_keys hn]
  · next h =>
    have hnot := OrderedMap.upsertEntries_of_not_mem (not_mem_of_place?_eq_none h) f
    simpa [entries] using hnot.symm

theorem toOrdered_upsert (m : TargetMap α) (t : Target) (f : Option α → α) :
    (m.upsert t f).toOrdered = m.toOrdered.upsert t f :=
  OrderedMap.ext (m.entries_upsert t f)

theorem entries_insert (m : TargetMap α) (t : Target) (a : α) :
    (m.insert t a).entries = OrderedMap.upsertEntries t (fun _ => a) m.entries :=
  m.entries_upsert t fun _ => a

theorem get?_upsert (m : TargetMap α) (t u : Target) (f : Option α → α) :
    (m.upsert t f).get? u = if u = t then some (f (m.get? t)) else m.get? u := by
  simp only [← get?_toOrdered, toOrdered_upsert, OrderedMap.get?_upsert]

theorem get?_insert (m : TargetMap α) (t u : Target) (a : α) :
    (m.insert t a).get? u = if u = t then some a else m.get? u :=
  m.get?_upsert t u fun _ => a

theorem keys_upsert (m : TargetMap α) (t : Target) (f : Option α → α) :
    (m.upsert t f).keys = if t ∈ m then m.keys else m.keys ++ [t] :=
  (congrArg (List.map Prod.fst) (m.entries_upsert t f)).trans
    (OrderedMap.map_fst_upsertEntries t f m.entries)

theorem keys_insert (m : TargetMap α) (t : Target) (a : α) :
    (m.insert t a).keys = if t ∈ m then m.keys else m.keys ++ [t] :=
  m.keys_upsert t fun _ => a

theorem isSome_get? (m : TargetMap α) (t : Target) : (m.get? t).isSome ↔ t ∈ m := by
  rw [← get?_toOrdered]
  exact m.toOrdered.isSome_get? t

theorem mem_of_get? {m : TargetMap α} {t : Target} {a : α} (h : m.get? t = some a) : t ∈ m :=
  (m.isSome_get? t).1 (h ▸ rfl)

theorem get?_empty_ne_some {t : Target} {a : α} : (∅ : TargetMap α).get? t ≠ some a := nofun

@[simp] theorem get?_eq_none_iff {m : TargetMap α} {t : Target} : m.get? t = none ↔ t ∉ m := by
  simp [← isSome_get?]

theorem get?_of_mem_entries {m : TargetMap α} {e : Target × α} (h : e ∈ m.entries) :
    m.get? e.1 = some e.2 := by
  rw [← get?_toOrdered]
  exact OrderedMap.get?_of_mem_entries h

theorem mem_entries_of_get? {m : TargetMap α} {t : Target} {a : α} (h : m.get? t = some a) :
    (t, a) ∈ m.entries := by
  obtain ⟨e, he, rfl⟩ := List.mem_map.1 (mem_of_get? h)
  simp only [get?_of_mem_entries he] at h
  cases h
  exact he

/-! ## Comparing -/

/-- Two maps that hold the same value at every target, in whatever order. -/
def Equiv (m m' : TargetMap α) : Prop := ∀ t, m.get? t = m'.get? t

/-- Decides `Equiv`: as many entries, and every entry of the one is in the other. -/
def equiv [BEq α] (m m' : TargetMap α) : Bool :=
  m.size == m'.size && m.entries.all fun e => m'.get? e.1 == some e.2

end TargetMap

end QualifiedInference
