-- SUMMARY: Commands to a workspace of named stores, and the versions of their records.
import QualifiedInference.Proofs.Branches.Contents
/-!
# Commands to a workspace

Stores are made, forked, written to and solved on by name. To solve is to write a number of
times (`Workspace.exists_step_solve`), so a command makes a store, forks one or makes writes to
one. A write gives its record a version that no record has had before (`Versioned.ne_next`),
and nothing else of what the workspace shows changes.
-/

namespace QualifiedInference

inductive Command where
  | create (name : String) (targets : List Target)
  /-- Names a fork of a store. -/
  | fork (name as : String)
  | add (name : String) (a : Addition)
  /-- Lets a strategy solve on the store itself. -/
  | solve (name : String) (b : BuiltIn) (types : TypeOrder) (order : QualifierOrder)
      (established : Answers)

namespace Workspace

/-- Makes `f` of the store `name`, if there is one. -/
def change (w : Workspace) (name : String) (f : Store → Store) : Workspace :=
  match w.get? name with
  | none => w
  | some s => w.update name (f s)

def step (w : Workspace) : Command → Workspace
  | .create name targets => w.create name targets
  | .fork name as => w.fork name as
  | .add name a => w.change name fun s => s.accept a
  | .solve name b types order established =>
    w.change name fun s => ((b.strategy types order).solve s established).1

def run (cs : List Command) : Workspace := cs.foldl step ∅

/-! ## What is looked up -/

def slot? (w : Workspace) (name : String) (t : Target) : Option Slot :=
  (w.get? name).bind fun s => s.slots.get? t

def record? (w : Workspace) (name : String) (t : Target) : Option Record :=
  (w.get? name).bind fun s => s.record? t

/-- The two stores share the record of `t`. -/
def shares (w : Workspace) (name name' : String) (t : Target) : Bool :=
  match w.get? name, w.get? name' with
  | some s, some s' => s.shares s' t
  | _, _ => false

variable {w : Workspace} {name name' other : String} {t : Target} {s s' : Store}

theorem record?_eq_map (w : Workspace) (name : String) (t : Target) :
    w.record? name t = (w.slot? name t).map Slot.record := by
  cases h : w.get? name <;> simp [record?, slot?, h, Store.record?]

theorem shares_iff : w.shares name name' t = true ↔
    ∃ a b, w.slot? name t = some a ∧ w.slot? name' t = some b ∧ a.version = b.version := by
  unfold shares slot? Store.shares
  cases w.get? name with
  | none => simp
  | some s =>
    cases w.get? name' with
    | none => simp
    | some s' =>
      dsimp only [Option.bind_some]
      cases s.slots.get? t <;> cases s'.slots.get? t <;> simp

theorem get?_create (w : Workspace) (name : String) (targets : List Target) (other : String) :
    (w.create name targets).get? other =
      if other = name then some (.new w.branches targets) else w.get? other :=
  OrderedMap.get?_insert ..

theorem fork_of_get? (h : w.get? name = some s) (as : String) :
    w.fork name as = ⟨w.branches + 1, w.stores.insert as (s.fork w.branches)⟩ := by
  simp only [fork, h]

theorem fork_of_none (h : w.get? name = none) (as : String) : w.fork name as = w := by
  simp only [fork, h]

theorem get?_fork (h : w.get? name = some s) (as other : String) :
    (w.fork name as).get? other =
      if other = as then some (s.fork w.branches) else w.get? other := by
  rw [fork_of_get? h]
  exact OrderedMap.get?_insert ..

theorem get?_update (w : Workspace) (name : String) (s : Store) (other : String) :
    (w.update name s).get? other = if other = name then some s else w.get? other :=
  OrderedMap.get?_insert ..

theorem get?_change (w : Workspace) (name : String) (f : Store → Store) (other : String) :
    (w.change name f).get? other = if other = name then (w.get? name).map f else w.get? other := by
  cases h : w.get? name with
  | none =>
    simp only [change, h]
    split
    · next heq => rw [heq, h]; rfl
    · rfl
  | some s =>
    simp only [change, h]
    exact get?_update ..

theorem change_of_get? (h : w.get? name = some s) (f : Store → Store) :
    w.change name f = w.update name (f s) := by
  simp only [change, h]

theorem update_self (h : w.get? name = some s) : w.update name s = w := by
  have hstores : w.stores.insert name s = w.stores := OrderedMap.upsert_of_get? h rfl
  rw [update, hstores]

theorem change_change (w : Workspace) (name : String) (f g : Store → Store) :
    (w.change name f).change name g = w.change name fun s => g (f s) := by
  cases h : w.get? name with
  | none => simp only [change, h]
  | some s =>
    have h' : (w.update name (f s)).get? name = some (f s) := by rw [get?_update, if_pos rfl]
    rw [change_of_get? h, change_of_get? h, change_of_get? h']
    exact congrArg (mk w.branches) (OrderedMap.insert_insert ..)

/-! ## Solving by additions -/

theorem foldl_add (w : Workspace) (name : String) (as : List Addition) :
    (as.map (Command.add name)).foldl step w = w.change name fun s => s.acceptAll as := by
  induction as generalizing w with
  | nil =>
    cases h : w.get? name with
    | none => simp only [change, h]; rfl
    | some s => rw [change_of_get? h]; exact (update_self h).symm
  | cons a as ih => exact (ih _).trans (change_change ..)

/-- To let a strategy solve is to make additions, one after the other. -/
theorem exists_step_solve (w : Workspace) (name : String) (b : BuiltIn) (types : TypeOrder)
    (order : QualifierOrder) (established : Answers) :
    ∃ as : List Addition, w.step (.solve name b types order established) =
      (as.map (Command.add name)).foldl step w := by
  cases h : w.get? name with
  | none => exact ⟨[], by simp only [step, change, h]; rfl⟩
  | some s =>
    obtain ⟨as, found, has⟩ := b.exists_additions types order established s
    refine ⟨as, ?_⟩
    rw [foldl_add, step, change_of_get? h, change_of_get? h, has s rfl]

/-- What making, forking and writing keep, every command keeps. -/
theorem step_induction {P : Workspace → Prop}
    (hcreate : ∀ w name targets, P w → P (w.create name targets))
    (hfork : ∀ w name as s, P w → w.get? name = some s → P (w.fork name as))
    (hwrite : ∀ w name s t f, P w → w.get? name = some s → P (w.update name (s.write t f)))
    (hw : P w) (c : Command) : P (w.step c) := by
  have hadd (w : Workspace) (name : String) (a : Addition) (hw : P w) :
      P (w.step (.add name a)) := by
    cases h : w.get? name with
    | none => simpa only [step, change, h] using hw
    | some s =>
      rw [step, change_of_get? h]
      by_cases ha : a.target ∈ s.targets
      · rw [Store.accept_of_mem ha]
        exact hwrite w name s _ _ hw h
      · rwa [Store.accept_of_not_mem ha, update_self h]
  cases c with
  | create name targets => exact hcreate w name targets hw
  | fork name as =>
    cases h : w.get? name with
    | none => rwa [step, fork_of_none h]
    | some s => exact hfork w name as s hw h
  | add name a => exact hadd w name a hw
  | solve name b types order established =>
    obtain ⟨as, has⟩ := exists_step_solve w name b types order established
    rw [has]
    clear has
    induction as generalizing w with
    | nil => exact hw
    | cons a as ih => exact ih (hadd w name a hw)

/-! ## Versions -/

theorem slots_get?_write (s : Store) (t u : Target) (f : Record → Record) :
    (s.write t f).slots.get? u =
      if u = t then (s.slots.get? t).map fun slot => ⟨f slot.record, ⟨s.branch, s.writes + 1⟩⟩
      else s.slots.get? u := by
  unfold Store.write TargetMap.modify
  dsimp only
  split
  · next h =>
    split
    · next hut => rw [hut, h]; rfl
    · rfl
  · next slot h =>
    rw [TargetMap.get?_insert, h]
    rfl

/-- No two stores have a branch in common, and every version is of a branch handed out. Versions
    of the branch of a store are of a write that the store has made. -/
structure Versioned (w : Workspace) : Prop where
  branch_lt : ∀ {name s}, w.get? name = some s → s.branch < w.branches
  apart : ∀ {name name' s s'}, w.get? name = some s → w.get? name' = some s' →
    s.branch = s'.branch → name = name'
  slot_lt : ∀ {name t slot}, w.slot? name t = some slot → slot.version.branch < w.branches
  slot_le : ∀ {name t slot name' s}, w.slot? name t = some slot → w.get? name' = some s →
    slot.version.branch = s.branch → slot.version.write ≤ s.writes

/-- The version that the next write to a store gives is new. -/
theorem Versioned.ne_next (h : w.Versioned) {slot : Slot} (hslot : w.slot? name t = some slot)
    (hs : w.get? name' = some s) : slot.version ≠ ⟨s.branch, s.writes + 1⟩ := by
  intro heq
  have hle := h.slot_le hslot hs (by rw [heq])
  rw [heq] at hle
  exact Nat.not_succ_le_self _ hle

theorem versioned_empty : (∅ : Workspace).Versioned := ⟨nofun, nofun, nofun, nofun⟩

/-- A store of a new branch, whose slots are first versions or slots of another store. -/
theorem Versioned.insert (h : w.Versioned) (hbranch : s.branch = w.branches)
    (hslots : ∀ t slot, s.slots.get? t = some slot →
      slot.version = ⟨w.branches, 0⟩ ∨ ∃ name', w.slot? name' t = some slot) :
    Versioned ⟨w.branches + 1, w.stores.insert name s⟩ := by
  have hget (other : String) : get? ⟨w.branches + 1, w.stores.insert name s⟩ other =
      if other = name then some s else w.get? other := OrderedMap.get?_insert ..
  -- A slot is a first version of the new branch, or it was in the workspace before.
  have hslot {other : String} {t : Target} {slot : Slot}
      (hslot : slot? ⟨w.branches + 1, w.stores.insert name s⟩ other t = some slot) :
      slot.version = ⟨w.branches, 0⟩ ∨ ∃ name', w.slot? name' t = some slot := by
    obtain ⟨s', hs', hslot⟩ := Option.bind_eq_some_iff.1 hslot
    rw [hget] at hs'
    split at hs'
    · cases hs'
      exact hslots t slot hslot
    · exact .inr ⟨other, Option.bind_eq_some_iff.2 ⟨s', hs', hslot⟩⟩
  refine ⟨fun {n s'} hs' => ?_, fun {n n' s' s''} hs' hs'' heq => ?_, fun {n t slot} hs' => ?_,
    fun {n t slot n' s'} hs' hs'' heq => ?_⟩
  · rw [hget] at hs'
    split at hs'
    · cases hs'
      exact hbranch ▸ Nat.lt_succ_self _
    · exact Nat.lt_succ_of_lt (h.branch_lt hs')
  · rw [hget] at hs' hs''
    split at hs' <;> split at hs''
    · next hn hn' => rw [hn, hn']
    · cases hs'
      exact absurd (h.branch_lt hs'') (by rw [← heq, hbranch]; exact Nat.lt_irrefl _)
    · cases hs''
      exact absurd (h.branch_lt hs') (by rw [heq, hbranch]; exact Nat.lt_irrefl _)
    · exact h.apart hs' hs'' heq
  · rcases hslot hs' with hv | ⟨_, hold⟩
    · exact hv ▸ Nat.lt_succ_self _
    · exact Nat.lt_succ_of_lt (h.slot_lt hold)
  · rcases hslot hs' with hv | ⟨_, hold⟩
    · exact hv ▸ Nat.zero_le _
    · rw [hget] at hs''
      split at hs''
      · cases hs''
        exact absurd (h.slot_lt hold) (by rw [heq, hbranch]; exact Nat.lt_irrefl _)
      · exact h.slot_le hold hs'' heq

theorem slots_get?_new {branch : Nat} {targets : List Target} {slot : Slot}
    (h : (Store.new branch targets).slots.get? t = some slot) :
    t ∈ targets ∧ slot = ⟨.new t, ⟨branch, 0⟩⟩ := by
  rw [Store.new, TargetMap.get?_ofList_map fun t => Slot.mk (.new t) ⟨branch, 0⟩] at h
  split at h
  · next ht => exact ⟨ht, (Option.some.inj h).symm⟩
  · cases h

theorem slot?_create (w : Workspace) (name : String) (targets : List Target) (other : String)
    (t : Target) : (w.create name targets).slot? other t =
      if other = name then (Store.new w.branches targets).slots.get? t else w.slot? other t := by
  rw [slot?, get?_create]
  split <;> rfl

theorem slot?_update_write (h : w.get? name = some s) (t : Target) (f : Record → Record)
    (other : String) (u : Target) :
    (w.update name (s.write t f)).slot? other u =
      if other = name ∧ u = t then
        (w.slot? name t).map fun slot => ⟨f slot.record, ⟨s.branch, s.writes + 1⟩⟩
      else w.slot? other u := by
  simp only [slot?, get?_update]
  by_cases ho : other = name
  · subst ho
    simp only [if_pos, h, Option.bind_some, slots_get?_write, true_and]
  · simp only [ho, if_false, false_and]

theorem Versioned.write (h : w.Versioned) (hs : w.get? name = some s) (t : Target)
    (f : Record → Record) : (w.update name (s.write t f)).Versioned := by
  -- Each store is one from before, with its branch, and has made no fewer writes.
  have hget {other : String} {s' : Store}
      (hs' : (w.update name (s.write t f)).get? other = some s') :
      ∃ s₀, w.get? other = some s₀ ∧ s'.branch = s₀.branch ∧ s₀.writes ≤ s'.writes ∧
        (other = name → s'.writes = s.writes + 1) := by
    rw [get?_update] at hs'
    split at hs'
    · next ho =>
      cases hs'
      exact ⟨s, ho ▸ hs, rfl, Nat.le_succ _, fun _ => rfl⟩
    · next ho => exact ⟨s', hs', rfl, Nat.le_refl _, fun ho' => absurd ho' ho⟩
  refine ⟨fun {n s'} hs' => ?_, fun {n n' s' s''} hs' hs'' heq => ?_, fun {n u slot} hslot => ?_,
    fun {n u slot n' s'} hslot hs' heq => ?_⟩
  · obtain ⟨s₀, hs₀, hb, -⟩ := hget hs'
    exact hb ▸ h.branch_lt hs₀
  · obtain ⟨s₀, hs₀, hb, -⟩ := hget hs'
    obtain ⟨s₁, hs₁, hb', -⟩ := hget hs''
    exact h.apart hs₀ hs₁ (by rw [← hb, ← hb', heq])
  · rw [slot?_update_write hs] at hslot
    split at hslot
    · obtain ⟨slot₀, -, rfl⟩ := Option.map_eq_some_iff.1 hslot
      exact h.branch_lt hs
    · exact h.slot_lt hslot
  · obtain ⟨s₀, hs₀, hb, hle, hname⟩ := hget hs'
    rw [slot?_update_write hs] at hslot
    split at hslot
    · obtain ⟨slot₀, -, rfl⟩ := Option.map_eq_some_iff.1 hslot
      have hn : name = n' := h.apart hs hs₀ (by rw [← hb]; exact heq)
      exact Nat.le_of_eq (hname hn.symm).symm
    · exact Nat.le_trans (h.slot_le hslot hs₀ (by rw [← hb]; exact heq)) hle

theorem Versioned.step (h : w.Versioned) (c : Command) : (w.step c).Versioned :=
  step_induction
    (fun _ _ _ h => h.insert rfl fun _ _ hslot =>
      .inl (congrArg Slot.version (slots_get?_new hslot).2))
    (fun w name as s h hs => by
      rw [fork_of_get? hs]
      exact h.insert rfl fun t slot hslot => .inr ⟨name, Option.bind_eq_some_iff.2 ⟨s, hs, hslot⟩⟩)
    (fun _ _ _ t f h hs => h.write hs t f) h c

theorem versioned_run (cs : List Command) : (run cs).Versioned := by
  suffices hfold : ∀ w : Workspace, w.Versioned → (cs.foldl step w).Versioned from
    hfold ∅ versioned_empty
  induction cs with
  | nil => exact fun _ h => h
  | cons c cs ih => exact fun w h => ih _ (h.step c)

/-! ## Writes stay in their branch -/

/-- A write to a record changes no other one, of this store or of another. -/
theorem record?_add_of_ne (w : Workspace) (name : String) (a : Addition)
    (h : other ≠ name ∨ t ≠ a.target) :
    (w.step (.add name a)).record? other t = w.record? other t := by
  simp only [step, record?, get?_change]
  split
  · next ho =>
    subst ho
    cases hs : w.get? other with
    | none => rfl
    | some s =>
      have ht : t ≠ a.target := h.resolve_left fun h => h rfl
      simp only [Option.map_some, Option.bind_some]
      by_cases ha : a.target ∈ s.targets
      · rw [Store.accept_of_mem ha, Store.record?_write, if_neg ht]
      · rw [Store.accept_of_not_mem ha]
  · rfl

/-- After a write to a record no other store shares it. -/
theorem shares_add_self (hw : w.Versioned) (name : String) (a : Addition) (ho : other ≠ name) :
    (w.step (.add name a)).shares name other a.target = false := by
  rw [Bool.eq_false_iff]
  intro hshares
  obtain ⟨slot, slot', hslot, hslot', heq⟩ := shares_iff.1 hshares
  cases hs : w.get? name with
  | none => simp [slot?, step, get?_change, hs] at hslot
  | some s =>
    rw [step, change_of_get? hs] at hslot hslot'
    by_cases ha : a.target ∈ s.targets
    · rw [Store.accept_of_mem ha, slot?_update_write hs] at hslot hslot'
      rw [if_pos ⟨rfl, rfl⟩] at hslot
      rw [if_neg fun h => ho h.1] at hslot'
      obtain ⟨slot₀, -, rfl⟩ := Option.map_eq_some_iff.1 hslot
      exact hw.ne_next hslot' hs heq.symm
    · rw [Store.accept_of_not_mem ha, update_self hs] at hslot
      obtain ⟨s', hs', hslot⟩ := Option.bind_eq_some_iff.1 hslot
      cases hs.symm.trans hs'
      exact ha (TargetMap.mem_of_get? hslot)

end Workspace

end QualifiedInference
