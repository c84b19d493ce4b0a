-- SUMMARY: Maps that keep their entries in the order of insertion.
/-!
# Insertion-ordered maps

A map whose entries keep the place of their first insertion: writing to a key that is
present changes its value in place, a new key goes to the end. Every writer is an
instance of `upsert`, so `get?_upsert` and `keys_upsert` describe them all.
-/

namespace QualifiedInference

structure OrderedMap (κ α : Type) where
  entries : List (κ × α)
  nodup_keys : (entries.map Prod.fst).Nodup

namespace OrderedMap

variable {κ α β : Type}

def keys (m : OrderedMap κ α) : List κ := m.entries.map Prod.fst

def values (m : OrderedMap κ α) : List α := m.entries.map Prod.snd

def size (m : OrderedMap κ α) : Nat := m.entries.length

def isEmpty (m : OrderedMap κ α) : Bool := m.entries.isEmpty

protected def empty : OrderedMap κ α := ⟨[], .nil⟩

instance : EmptyCollection (OrderedMap κ α) := ⟨OrderedMap.empty⟩

instance : Inhabited (OrderedMap κ α) := ⟨∅⟩

instance : Membership κ (OrderedMap κ α) := ⟨fun m k => k ∈ m.keys⟩

theorem mem_def {m : OrderedMap κ α} {k : κ} : k ∈ m ↔ k ∈ m.keys := Iff.rfl

instance [DecidableEq κ] (m : OrderedMap κ α) (k : κ) : Decidable (k ∈ m) :=
  inferInstanceAs (Decidable (k ∈ m.keys))

theorem ext {m n : OrderedMap κ α} (h : m.entries = n.entries) : m = n := by
  cases m; cases n; cases h; rfl

variable [DecidableEq κ]

/-- The value at `k` in a list of entries. -/
@[specialize] def valueIn? (k : κ) : List (κ × α) → Option α
  | [] => none
  | (k', a) :: rest => if k' = k then some a else valueIn? k rest

@[inline] def get? (m : OrderedMap κ α) (k : κ) : Option α := valueIn? k m.entries

def contains (m : OrderedMap κ α) (k : κ) : Bool := (m.get? k).isSome

/-! ## Writing -/

/-- The entries after the value at `k` became `f` of the value before. -/
def upsertEntries (k : κ) (f : Option α → α) : List (κ × α) → List (κ × α)
  | [] => [(k, f none)]
  | (k', a) :: rest =>
    if k' = k then (k', f (some a)) :: rest else (k', a) :: upsertEntries k f rest

theorem map_fst_upsertEntries (k : κ) (f : Option α → α) (es : List (κ × α)) :
    (upsertEntries k f es).map Prod.fst =
      if k ∈ es.map Prod.fst then es.map Prod.fst else es.map Prod.fst ++ [k] := by
  induction es with
  | nil => rfl
  | cons e rest ih =>
    by_cases h : e.1 = k
    · simp [upsertEntries, h]
    · have h' : ¬k = e.1 := fun h' => h h'.symm
      simp only [upsertEntries, if_neg h, List.map_cons, ih, List.mem_cons, h', false_or]
      split <;> rfl

theorem upsertEntries_of_not_mem {k : κ} {es : List (κ × α)} (h : k ∉ es.map Prod.fst)
    (f : Option α → α) : upsertEntries k f es = es ++ [(k, f none)] := by
  induction es with
  | nil => rfl
  | cons e rest ih =>
    simp only [List.map_cons, List.mem_cons, not_or] at h
    simp [upsertEntries, Ne.symm h.1, ih h.2]

theorem upsertEntries_of_getElem? {k : κ} {es : List (κ × α)} (hes : (es.map Prod.fst).Nodup)
    {n : Nat} (h : (es.map Prod.fst)[n]? = some k) (f : Option α → α) :
    upsertEntries k f es = es.modify n fun e => (e.1, f (some e.2)) := by
  induction es generalizing n with
  | nil => simp at h
  | cons e rest ih =>
    simp only [List.map_cons, List.nodup_cons] at hes
    cases n with
    | zero =>
      obtain rfl : e.1 = k := by simpa using h
      simp [upsertEntries]
    | succ n =>
      have hn : (rest.map Prod.fst)[n]? = some k := by simpa using h
      have hne : e.1 ≠ k := fun he => hes.1 (he ▸ List.mem_of_getElem? hn)
      simp [upsertEntries, hne, ih hes.2 hn]

theorem nodup_upsertEntries (k : κ) (f : Option α → α) {es : List (κ × α)}
    (h : (es.map Prod.fst).Nodup) : ((upsertEntries k f es).map Prod.fst).Nodup := by
  simp only [map_fst_upsertEntries]
  split
  · exact h
  · next hk =>
    refine List.nodup_append.2 ⟨h, by simp, ?_⟩
    intro a ha b hb hab
    simp only [List.mem_singleton.1 hb] at hab
    exact hk (hab ▸ ha)

/-- Replaces the value at `k` by `f` of it; `f none` is appended when `k` is absent. -/
def upsert (m : OrderedMap κ α) (k : κ) (f : Option α → α) : OrderedMap κ α :=
  ⟨upsertEntries k f m.entries, nodup_upsertEntries k f m.nodup_keys⟩

def insert (m : OrderedMap κ α) (k : κ) (a : α) : OrderedMap κ α := m.upsert k fun _ => a

/-- Leaves a value that is already there as it is. -/
def insertIfNew (m : OrderedMap κ α) (k : κ) (a : α) : OrderedMap κ α :=
  m.upsert k fun old => old.getD a

/-- Changes the value at `k`, if there is one. -/
def modify (m : OrderedMap κ α) (k : κ) (f : α → α) : OrderedMap κ α :=
  match m.get? k with
  | none => m
  | some a => m.insert k (f a)

def ofList (es : List (κ × α)) : OrderedMap κ α := es.foldl (fun m e => m.insert e.1 e.2) ∅

theorem keys_upsert (m : OrderedMap κ α) (k : κ) (f : Option α → α) :
    (m.upsert k f).keys = if k ∈ m then m.keys else m.keys ++ [k] :=
  map_fst_upsertEntries k f m.entries

theorem valueIn?_upsertEntries (k k' : κ) (f : Option α → α) (es : List (κ × α)) :
    valueIn? k' (upsertEntries k f es) =
      if k' = k then some (f (valueIn? k es)) else valueIn? k' es := by
  induction es with
  | nil =>
    simp only [upsertEntries, valueIn?, eq_comm]
  | cons e rest ih =>
    obtain ⟨k₀, a⟩ := e
    unfold upsertEntries
    split
    · next h =>
      subst h
      by_cases h' : k' = k₀
      · simp [valueIn?, h']
      · simp [valueIn?, h', Ne.symm h']
    · next h =>
      by_cases h' : k₀ = k'
      · subst h'
        simp [valueIn?, h]
      · simp [valueIn?, h, h', ih]

theorem get?_upsert (m : OrderedMap κ α) (k k' : κ) (f : Option α → α) :
    (m.upsert k f).get? k' = if k' = k then some (f (m.get? k)) else m.get? k' :=
  valueIn?_upsertEntries k k' f m.entries

theorem get?_insert (m : OrderedMap κ α) (k k' : κ) (a : α) :
    (m.insert k a).get? k' = if k' = k then some a else m.get? k' :=
  get?_upsert m k k' fun _ => a

theorem keys_insert (m : OrderedMap κ α) (k : κ) (a : α) :
    (m.insert k a).keys = if k ∈ m then m.keys else m.keys ++ [k] :=
  keys_upsert m k fun _ => a

theorem upsertEntries_of_valueIn? {k : κ} {f : Option α → α} {es : List (κ × α)} {a : α}
    (h : valueIn? k es = some a) (hf : f (some a) = a) : upsertEntries k f es = es := by
  induction es with
  | nil => cases h
  | cons e rest ih =>
    obtain ⟨k', a'⟩ := e
    unfold valueIn? at h
    unfold upsertEntries
    split at h
    · next hk =>
      cases h
      rw [if_pos hk, hf]
    · next hk => rw [if_neg hk, ih h]

/-- A write that puts back what is there. -/
theorem upsert_of_get? {m : OrderedMap κ α} {k : κ} {f : Option α → α} {a : α}
    (h : m.get? k = some a) (hf : f (some a) = a) : m.upsert k f = m :=
  ext (upsertEntries_of_valueIn? h hf)

theorem isSome_valueIn? (k : κ) (es : List (κ × α)) :
    (valueIn? k es).isSome ↔ k ∈ es.map Prod.fst := by
  induction es with
  | nil => simp [valueIn?]
  | cons e rest ih =>
    obtain ⟨k₀, a⟩ := e
    unfold valueIn?
    split
    · next h => simp [h]
    · next h => simp [ih, Ne.symm h]

theorem isSome_get? (m : OrderedMap κ α) (k : κ) : (m.get? k).isSome ↔ k ∈ m :=
  isSome_valueIn? k m.entries

theorem mem_of_get? {m : OrderedMap κ α} {k : κ} {a : α} (h : m.get? k = some a) : k ∈ m :=
  (m.isSome_get? k).1 (h ▸ rfl)

theorem valueIn?_of_mem {es : List (κ × α)} (hes : (es.map Prod.fst).Nodup) {e : κ × α}
    (h : e ∈ es) : valueIn? e.1 es = some e.2 := by
  induction es with
  | nil => cases h
  | cons e' rest ih =>
    simp only [List.map_cons, List.nodup_cons] at hes
    cases List.mem_cons.1 h with
    | inl h => simp [valueIn?, h]
    | inr h =>
      have hne : e'.1 ≠ e.1 := fun h' => hes.1 (List.mem_map.2 ⟨e, h, h'.symm⟩)
      simpa [valueIn?, hne] using ih hes.2 h

theorem valueIn?_of_getElem? {es : List (κ × α)} (hes : (es.map Prod.fst).Nodup) {k : κ} {n : Nat}
    (h : (es.map Prod.fst)[n]? = some k) : valueIn? k es = es[n]?.map Prod.snd := by
  simp only [List.getElem?_map] at h
  cases he : es[n]? with
  | none => simp [he] at h
  | some e =>
    obtain rfl : e.1 = k := by simpa [he] using h
    exact valueIn?_of_mem hes (List.mem_of_getElem? he)

theorem get?_of_mem_entries {m : OrderedMap κ α} {e : κ × α} (h : e ∈ m.entries) :
    m.get? e.1 = some e.2 :=
  valueIn?_of_mem m.nodup_keys h

/-! ## Comparing -/

/-- Two maps that hold the same value at every key, in whatever order. -/
def Equiv (m n : OrderedMap κ α) : Prop := ∀ k, m.get? k = n.get? k

/-- Decides `Equiv`: as many entries, and every entry of the one is in the other. -/
def equiv [BEq α] (m n : OrderedMap κ α) : Bool :=
  m.size == n.size && m.entries.all fun e => n.get? e.1 == some e.2

end OrderedMap

end QualifiedInference
