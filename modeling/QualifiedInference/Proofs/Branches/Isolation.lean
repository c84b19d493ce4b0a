-- SUMMARY: Forked stores against full copies and against cells that are copied on a write.
import QualifiedInference.Proofs.Branches.Workspace
/-!
# Isolated branches

Two other ways to carry out the same commands. In the one, a fork is a full copy that shares
nothing (`Workspace.deepStep`). In the other, records lie in cells and a fork gets the cells of
the store it is taken from (`Heap`); a write goes to the cell itself if no other record lies in
it, and else to a new cell. All three show the same, and the records that share a cell are those
with one version (`Workspace.branches_isolated`).
-/

namespace QualifiedInference

/-! ## Full copies -/

/-- A store that shows the same, with all records its own. -/
def Store.copy (s : Store) (branch : Nat) : Store :=
  ⟨branch, 0, .ofList (s.slots.entries.map fun e => (e.1, ⟨e.2.record, ⟨branch, 0⟩⟩))⟩

theorem Store.contents_copy (s : Store) (branch : Nat) :
    (s.copy branch).contents = s.contents := by
  have hkeys : (s.slots.entries.map fun e => (e.1, Slot.mk e.2.record ⟨branch, 0⟩)).map Prod.fst =
      s.slots.keys := by
    rw [List.map_map]
    rfl
  rw [contents, copy, TargetMap.entries_ofList (hkeys ▸ s.slots.keys_nodup), List.map_map]
  rfl

namespace Workspace

/-- Like `step`, but forks are full copies. -/
def deepStep (w : Workspace) : Command → Workspace
  | .fork name as =>
    match w.get? name with
    | none => w
    | some s => ⟨w.branches + 1, w.stores.insert as (s.copy w.branches)⟩
  | c => w.step c

def deepRun (cs : List Command) : Workspace := cs.foldl deepStep ∅

/-- What the store `name` shows. -/
def contents? (w : Workspace) (name : String) : Option (List (Target × Record)) :=
  (w.get? name).map Store.contents

variable {w w' : Workspace}

theorem contents?_change (h : ∀ name, w.contents? name = w'.contents? name) (name : String)
    {f : Store → Store}
    (hf : ∀ s s' : Store, s.contents = s'.contents → (f s).contents = (f s').contents)
    (other : String) : (w.change name f).contents? other = (w'.change name f).contents? other := by
  have hname := h name
  simp only [contents?, get?_change] at hname ⊢
  split
  · cases hs : w.get? name with
    | none =>
      rw [hs, Option.map_none, eq_comm, Option.map_eq_none_iff] at hname
      rw [hname]
    | some s =>
      rw [hs, Option.map_some, eq_comm, Option.map_eq_some_iff] at hname
      obtain ⟨s', hs', hcontents⟩ := hname
      rw [hs', Option.map_some, Option.map_some, Option.map_some, Option.map_some,
        hf s s' hcontents.symm]
  · exact h other

theorem contents?_insert {m m' : OrderedMap String Store} {name : String} {s s' : Store}
    (b b' : Nat) (h : ∀ name, (m.get? name).map Store.contents = (m'.get? name).map Store.contents)
    (hs : s.contents = s'.contents) (other : String) :
    contents? ⟨b, m.insert name s⟩ other = contents? ⟨b', m'.insert name s'⟩ other := by
  simp only [contents?, get?, OrderedMap.get?_insert]
  split
  · simp [hs]
  · exact h other

/-- Workspaces that show the same still do after a command, be a fork a copy or not. -/
theorem contents?_step (h : ∀ name, w.contents? name = w'.contents? name) (c : Command)
    (name : String) : (w.step c).contents? name = (w'.deepStep c).contents? name := by
  cases c with
  | create name' targets =>
    refine contents?_insert _ _ h (Store.contents_congr ?_ fun t => ?_) name
    · rw [Store.targets_new, Store.targets_new]
    · rw [Store.record?_new, Store.record?_new]
  | fork name' as =>
    have hname := h name'
    simp only [contents?] at hname
    simp only [step, deepStep, fork]
    cases hs : w.get? name' with
    | none =>
      rw [hs, Option.map_none, eq_comm, Option.map_eq_none_iff] at hname
      simp only [hname]
      exact h name
    | some s =>
      rw [hs, Option.map_some, eq_comm, Option.map_eq_some_iff] at hname
      obtain ⟨s', hs', hcontents⟩ := hname
      simp only [hs']
      have hfork : (s.fork w.branches).contents = (s'.copy w'.branches).contents :=
        hcontents.symm.trans (s'.contents_copy _).symm
      exact contents?_insert _ _ h hfork name
  | add name' a => exact contents?_change h name' (fun _ _ hs => Store.contents_accept hs a) name
  | solve name' b types order established =>
    refine contents?_change h name' (fun s s' hs => ?_) name
    obtain ⟨as, found, has⟩ := b.exists_additions types order established s
    rw [has s rfl, has s' hs.symm]
    exact Store.contents_acceptAll hs as

theorem contents?_run (cs : List Command) (name : String) :
    (run cs).contents? name = (deepRun cs).contents? name := by
  induction cs using List.reverseRecOn generalizing name with
  | nil => rfl
  | append_singleton cs c ih =>
    rw [run, deepRun, List.foldl_append, List.foldl_append]
    exact contents?_step ih c name

end Workspace

/-! ## Shared cells -/

/-- Records in cells, and for each store by name the cells of its records. -/
structure Heap where
  cells : List Record
  stores : OrderedMap String (TargetMap Nat)

namespace Heap

instance : EmptyCollection Heap := ⟨⟨[], ∅⟩⟩

def cell? (h : Heap) (name : String) (t : Target) : Option Nat :=
  (h.stores.get? name).bind fun cells => cells.get? t

def record? (h : Heap) (name : String) (t : Target) : Option Record :=
  (h.cell? name t).bind fun c => h.cells[c]?

def contents? (h : Heap) (name : String) : Option (List (Target × Record)) :=
  (h.stores.get? name).map fun cells =>
    cells.keys.filterMap fun t => (h.record? name t).map (t, ·)

/-- The records of `t` in the two stores lie in one cell. -/
def shares (h : Heap) (name name' : String) (t : Target) : Bool :=
  match h.cell? name t, h.cell? name' t with
  | some c, some c' => c == c'
  | _, _ => false

/-- The records that lie in a cell. -/
def holders (h : Heap) (c : Nat) : List (String × Target) :=
  h.stores.entries.flatMap fun e => (e.2.entries.filter (·.2 == c)).map fun p => (e.1, p.1)

/-! ### Commands -/

/-- Each target gets a new cell, a target listed twice the later one. -/
def create (h : Heap) (name : String) (targets : List Target) : Heap :=
  ⟨h.cells ++ targets.map Record.new,
    h.stores.insert name (.ofList (targets.zipIdx h.cells.length))⟩

def fork (h : Heap) (name as : String) : Heap :=
  match h.stores.get? name with
  | none => h
  | some cells => { h with stores := h.stores.insert as cells }

/-- Writes in place if no other record lies in the cell, and else to a new cell. -/
def add (h : Heap) (name : String) (a : Addition) : Heap :=
  match h.stores.get? name, h.cell? name a.target, h.record? name a.target with
  | some cells, some c, some r =>
    if (h.holders c).length = 1 then { h with cells := h.cells.set c (r.accept a) }
    else ⟨h.cells ++ [r.accept a],
      h.stores.insert name (cells.insert a.target h.cells.length)⟩
  | _, _, _ => h

/-- A command carried out. A strategy makes the additions that it makes to any store that shows
    what the store in the heap does. -/
inductive Step (h : Heap) : Command → Heap → Prop
  | create (name : String) (targets : List Target) :
    Step h (.create name targets) (h.create name targets)
  | fork (name as : String) : Step h (.fork name as) (h.fork name as)
  | add (name : String) (a : Addition) : Step h (.add name a) (h.add name a)
  | solve {name : String} {b : BuiltIn} {types : TypeOrder} {order : QualifierOrder}
      {established : Answers} {as : List Addition}
      (has : ∀ s : Store, h.contents? name = some s.contents →
        ((b.strategy types order).solve s established).1 = s.acceptAll as) :
    Step h (.solve name b types order established) (as.foldl (fun h a => h.add name a) h)

/-- The commands carried out in order. -/
inductive Runs : Heap → List Command → Heap → Prop
  | nil (h : Heap) : Runs h [] h
  | cons {h h' h'' : Heap} {c : Command} {cs : List Command} (hc : h.Step c h')
      (hcs : Runs h' cs h'') : Runs h (c :: cs) h''

/-! ### In step with the workspace -/

/-- The heap has the stores of the workspace, with the records of each, and two of the records lie
    in one cell just when they are of one target and have one version. -/
structure Agrees (h : Heap) (w : Workspace) : Prop where
  stores : ∀ name, (h.stores.get? name).map TargetMap.keys = (w.get? name).map Store.targets
  records : ∀ {name t slot}, w.slot? name t = some slot →
    ∃ c, h.cell? name t = some c ∧ h.cells[c]? = some slot.record
  sharing : ∀ {name name' t t' c c' slot slot'},
    h.cell? name t = some c → w.slot? name t = some slot →
    h.cell? name' t' = some c' → w.slot? name' t' = some slot' →
    (c = c' ↔ t = t' ∧ slot.version = slot'.version)

variable {h h' : Heap} {w : Workspace} {name : String} {t : Target} {s : Store} {r : Record}

theorem Agrees.isSome_cell? (hw : h.Agrees w) (name : String) (t : Target) :
    (h.cell? name t).isSome ↔ (w.slot? name t).isSome := by
  have hstores := hw.stores name
  unfold cell? Workspace.slot?
  cases hs : w.get? name with
  | none =>
    rw [hs, Option.map_none, Option.map_eq_none_iff] at hstores
    simp [hstores]
  | some s =>
    rw [hs, Option.map_some, Option.map_eq_some_iff] at hstores
    obtain ⟨cells, hcells, hkeys⟩ := hstores
    rw [hcells, Option.bind_some, Option.bind_some, TargetMap.isSome_get?, TargetMap.isSome_get?,
      TargetMap.mem_def, hkeys]
    rfl

theorem Agrees.record?_eq (hw : h.Agrees w) (name : String) (t : Target) :
    h.record? name t = w.record? name t := by
  rw [Workspace.record?_eq_map, record?]
  cases hslot : w.slot? name t with
  | none =>
    have hnone : h.cell? name t = none := by
      rw [← Option.not_isSome_iff_eq_none, hw.isSome_cell?, hslot]
      nofun
    rw [hnone]
    rfl
  | some slot =>
    obtain ⟨c, hc, hr⟩ := hw.records hslot
    rw [hc, Option.bind_some, hr]
    rfl

theorem Agrees.contents?_eq (hw : h.Agrees w) (name : String) :
    h.contents? name = w.contents? name := by
  have hstores := hw.stores name
  have hrecord (t : Target) := hw.record?_eq name t
  unfold contents? Workspace.contents?
  cases hs : w.get? name with
  | none =>
    rw [hs, Option.map_none, Option.map_eq_none_iff] at hstores
    rw [hstores]
    rfl
  | some s =>
    rw [hs, Option.map_some, Option.map_eq_some_iff] at hstores
    obtain ⟨cells, hcells, hkeys⟩ := hstores
    simp only [hcells, Option.map_some, hkeys, hrecord, Store.contents_eq_filterMap,
      Workspace.record?, hs, Option.bind_some]

theorem Agrees.shares_eq (hw : h.Agrees w) (name name' : String) (t : Target) :
    h.shares name name' t = w.shares name name' t := by
  rw [Bool.eq_iff_iff, Workspace.shares_iff]
  unfold shares
  constructor
  · intro heq
    split at heq
    · next c c' hc hc' =>
      obtain ⟨a, ha⟩ := Option.isSome_iff_exists.1 ((hw.isSome_cell? name t).1 (hc ▸ rfl))
      obtain ⟨b, hb⟩ := Option.isSome_iff_exists.1 ((hw.isSome_cell? name' t).1 (hc' ▸ rfl))
      exact ⟨a, b, ha, hb, ((hw.sharing hc ha hc' hb).1 (eq_of_beq heq)).2⟩
    · cases heq
  · rintro ⟨a, b, ha, hb, heq⟩
    obtain ⟨c, hc, -⟩ := hw.records ha
    obtain ⟨c', hc', -⟩ := hw.records hb
    rw [hc, hc']
    exact beq_iff_eq.2 ((hw.sharing hc ha hc' hb).2 ⟨rfl, heq⟩)

theorem agrees_empty : (∅ : Heap).Agrees ∅ := ⟨fun _ => rfl, nofun, nofun⟩

theorem cell?_insert (cells : List Record) (stores : OrderedMap String (TargetMap Nat))
    (name : String) (m : TargetMap Nat) (other : String) (t : Target) :
    cell? ⟨cells, stores.insert name m⟩ other t =
      if other = name then m.get? t else cell? ⟨cells, stores⟩ other t := by
  unfold cell?
  rw [OrderedMap.get?_insert]
  split <;> rfl

/-- A cell that is held is one of the heap. -/
theorem Agrees.cell_lt (hw : h.Agrees w) {c : Nat} (hc : h.cell? name t = some c) :
    c < h.cells.length := by
  obtain ⟨slot, hslot⟩ := Option.isSome_iff_exists.1 ((hw.isSome_cell? name t).1 (hc ▸ rfl))
  obtain ⟨c', hc', hr⟩ := hw.records hslot
  cases hc.symm.trans hc'
  exact (List.getElem?_eq_some_iff.1 hr).1

theorem Agrees.fork (hw : h.Agrees w) (name as : String) :
    (h.fork name as).Agrees (w.fork name as) := by
  have hstores := hw.stores name
  cases hs : w.get? name with
  | none =>
    rw [hs, Option.map_none, Option.map_eq_none_iff] at hstores
    rw [Workspace.fork_of_none hs]
    simpa only [Heap.fork, hstores] using hw
  | some s =>
    rw [hs, Option.map_some, Option.map_eq_some_iff] at hstores
    obtain ⟨cells, hcells, hkeys⟩ := hstores
    have hfork : h.fork name as = ⟨h.cells, h.stores.insert as cells⟩ := by
      simp only [Heap.fork, hcells]
    -- What is seen through the fork is what is seen through the store it was taken from.
    have hcell (n : String) (u : Target) :
        (h.fork name as).cell? n u = h.cell? (if n = as then name else n) u := by
      rw [hfork, cell?_insert]
      split
      · rw [cell?, hcells]; rfl
      · rfl
    have hslot (n : String) (u : Target) :
        (w.fork name as).slot? n u = w.slot? (if n = as then name else n) u := by
      rw [Workspace.slot?, Workspace.get?_fork hs]
      split
      · rw [Workspace.slot?, hs]; rfl
      · rfl
    refine ⟨fun n => ?_, fun hslot' => ?_, fun hc hslot' hc' hslot'' => ?_⟩
    · rw [hfork, OrderedMap.get?_insert, Workspace.get?_fork hs]
      split
      · exact congrArg some hkeys
      · exact hw.stores n
    · rw [hslot] at hslot'
      rw [hcell, hfork]
      exact hw.records hslot'
    · rw [hcell] at hc hc'
      rw [hslot] at hslot' hslot''
      exact hw.sharing hc hslot' hc' hslot''

/-! ### New stores -/

theorem keys_ofList_zipIdx (targets : List Target) (n : Nat) :
    (TargetMap.ofList (targets.zipIdx n)).keys = targets.eraseDups := by
  rw [TargetMap.keys_ofList, List.zipIdx_map_fst]

theorem of_get?_ofList_zipIdx {targets : List Target} {n c : Nat}
    (h : (TargetMap.ofList (targets.zipIdx n)).get? t = some c) :
    n ≤ c ∧ targets[c - n]? = some t :=
  List.mk_mem_zipIdx_iff_le_and_getElem?_sub.1 (TargetMap.mem_of_get?_ofList h)

theorem cell?_create (h : Heap) (name : String) (targets : List Target) (other : String)
    (t : Target) : (h.create name targets).cell? other t =
      if other = name then (TargetMap.ofList (targets.zipIdx h.cells.length)).get? t
      else h.cell? other t := cell?_insert ..

theorem exists_cell_create (h : Heap) {targets : List Target} (ht : t ∈ targets) :
    ∃ c, (TargetMap.ofList (targets.zipIdx h.cells.length)).get? t = some c ∧
      (h.create name targets).cells[c]? = some (.new t) := by
  have hmem : t ∈ (TargetMap.ofList (targets.zipIdx h.cells.length)).keys := by
    rwa [keys_ofList_zipIdx, List.mem_eraseDups]
  obtain ⟨c, hc⟩ := Option.isSome_iff_exists.1 ((TargetMap.isSome_get? _ _).2 hmem)
  obtain ⟨hle, hget⟩ := of_get?_ofList_zipIdx hc
  refine ⟨c, hc, ?_⟩
  rw [Heap.create, List.getElem?_append_right hle, List.getElem?_map, hget]
  rfl

/-- The cells and the version of a new store are new. -/
theorem Agrees.ne_of_new (hw : h.Agrees w) (hv : w.Versioned) {targets : List Target}
    {other : String} {u : Target} {c d : Nat} {slot slot' : Slot}
    (hc : (TargetMap.ofList (targets.zipIdx h.cells.length)).get? t = some c)
    (hs : (Store.new w.branches targets).slots.get? t = some slot)
    (hd : h.cell? other u = some d) (hs' : w.slot? other u = some slot') :
    c ≠ d ∧ slot.version ≠ slot'.version := by
  obtain ⟨-, rfl⟩ := Workspace.slots_get?_new hs
  refine ⟨Nat.ne_of_gt (Nat.lt_of_lt_of_le (hw.cell_lt hd) (of_get?_ofList_zipIdx hc).1), ?_⟩
  intro heq
  have hlt := hv.slot_lt hs'
  rw [← heq] at hlt
  exact Nat.lt_irrefl _ hlt

theorem Agrees.create (hw : h.Agrees w) (hv : w.Versioned) (name : String)
    (targets : List Target) : (h.create name targets).Agrees (w.create name targets) := by
  refine ⟨fun n => ?_, fun {n u slot} hs => ?_, fun {n n' u u' c c' slot slot'} hc hs hc' hs' => ?_⟩
  · rw [Workspace.get?_create, Heap.create, OrderedMap.get?_insert]
    split
    · rw [Option.map_some, Option.map_some, keys_ofList_zipIdx, Store.targets_new]
    · exact hw.stores n
  · rw [Workspace.slot?_create] at hs
    rw [cell?_create]
    split at hs
    · next hn =>
      obtain ⟨hu, rfl⟩ := Workspace.slots_get?_new hs
      rw [if_pos hn]
      exact exists_cell_create h hu
    · next hn =>
      obtain ⟨c, hc, hr⟩ := hw.records hs
      rw [if_neg hn]
      refine ⟨c, hc, ?_⟩
      rw [Heap.create, List.getElem?_append_left (hw.cell_lt hc), hr]
  · rw [cell?_create] at hc hc'
    rw [Workspace.slot?_create] at hs hs'
    by_cases hn : n = name <;> by_cases hn' : n' = name
    · rw [if_pos hn] at hc hs
      rw [if_pos hn'] at hc' hs'
      obtain ⟨-, rfl⟩ := Workspace.slots_get?_new hs
      obtain ⟨-, rfl⟩ := Workspace.slots_get?_new hs'
      refine ⟨fun heq => ?_, fun hboth => ?_⟩
      · subst heq
        have hu := (of_get?_ofList_zipIdx hc).2
        exact ⟨Option.some.inj (hu.symm.trans (of_get?_ofList_zipIdx hc').2), rfl⟩
      · obtain ⟨rfl, -⟩ := hboth
        exact Option.some.inj (hc.symm.trans hc')
    · rw [if_pos hn] at hc hs
      rw [if_neg hn'] at hc' hs'
      obtain ⟨hcell, hversion⟩ := hw.ne_of_new hv hc hs hc' hs'
      exact iff_of_false hcell fun heq => hversion heq.2
    · rw [if_neg hn] at hc hs
      rw [if_pos hn'] at hc' hs'
      obtain ⟨hcell, hversion⟩ := hw.ne_of_new hv hc' hs' hc hs
      exact iff_of_false hcell.symm fun heq => hversion heq.2.symm
    · rw [if_neg hn] at hc hs
      rw [if_neg hn'] at hc' hs'
      exact hw.sharing hc hs hc' hs'

/-! ### Writes -/

theorem mem_holders {h : Heap} {c : Nat} {name : String} {t : Target} :
    (name, t) ∈ h.holders c ↔ h.cell? name t = some c := by
  unfold holders cell?
  simp only [List.mem_flatMap, List.mem_map, List.mem_filter, beq_iff_eq, Prod.mk.injEq,
    Option.bind_eq_some_iff]
  constructor
  · rintro ⟨e, he, p, ⟨hp, rfl⟩, rfl, rfl⟩
    exact ⟨e.2, OrderedMap.get?_of_mem_entries he, TargetMap.get?_of_mem_entries hp⟩
  · rintro ⟨cells, hcells, hc⟩
    exact ⟨(name, cells), OrderedMap.get?_eq_some_iff.1 hcells, (t, c),
      ⟨TargetMap.mem_entries_of_get? hc, rfl⟩, rfl, rfl⟩

/-- The record of `t` in the store `name` has become `r`, in a cell of its own, and no other
    record has moved or changed. -/
structure Wrote (h h' : Heap) (name : String) (t : Target) (r : Record) : Prop where
  stores : ∀ n, (h'.stores.get? n).map TargetMap.keys = (h.stores.get? n).map TargetMap.keys
  cell : ∃ c, h'.cell? name t = some c ∧ h'.cells[c]? = some r ∧
    ∀ n u, ¬(n = name ∧ u = t) → h'.cell? n u = h.cell? n u ∧
      ∀ c', h.cell? n u = some c' → c' ≠ c ∧ h'.cells[c']? = h.cells[c']?

/-- A write to a cell that a single record lies in changes no other one. -/
theorem Agrees.wrote_set (hw : h.Agrees w) {c : Nat} (hc : h.cell? name t = some c)
    (hone : (h.holders c).length = 1) (r : Record) :
    h.Wrote { h with cells := h.cells.set c r } name t r := by
  refine ⟨fun _ => rfl, c, hc, List.getElem?_set_self (hw.cell_lt hc), fun n u hne => ⟨rfl, ?_⟩⟩
  intro c' hc'
  have hcc : c' ≠ c := by
    rintro rfl
    obtain ⟨holder, hholder⟩ := List.length_eq_one_iff.1 hone
    have h₁ := mem_holders.2 hc
    have h₂ := mem_holders.2 hc'
    rw [hholder, List.mem_singleton] at h₁ h₂
    obtain ⟨rfl, rfl⟩ := Prod.mk.inj (h₂.trans h₁.symm)
    exact hne ⟨rfl, rfl⟩
  exact ⟨hcc, List.getElem?_set_ne hcc.symm⟩

/-- Nor does a write to a new cell. -/
theorem Agrees.wrote_append (hw : h.Agrees w) {cells : TargetMap Nat}
    (hcells : h.stores.get? name = some cells) (ht : t ∈ cells) (r : Record) :
    h.Wrote ⟨h.cells ++ [r], h.stores.insert name (cells.insert t h.cells.length)⟩ name t r := by
  refine ⟨fun n => ?_, h.cells.length, ?_, by simp, fun n u hne => ⟨?_, fun c' hc' => ?_⟩⟩
  · rw [OrderedMap.get?_insert]
    split
    · next hn =>
      rw [hn, hcells, Option.map_some, Option.map_some, TargetMap.keys_insert, if_pos ht]
    · rfl
  · rw [cell?_insert, if_pos rfl, TargetMap.get?_insert, if_pos rfl]
  · rw [cell?_insert]
    split
    · next hn =>
      rw [TargetMap.get?_insert, if_neg fun hu => hne ⟨hn, hu⟩, hn, cell?, hcells]
      rfl
    · rfl
  · have hlt := hw.cell_lt hc'
    exact ⟨Nat.ne_of_lt hlt, List.getElem?_append_left hlt⟩

theorem Agrees.wrote (hw : h.Agrees w) {a : Addition} {r : Record}
    (hr : w.record? name a.target = some r) :
    h.Wrote (h.add name a) name a.target (r.accept a) := by
  have hr' : h.record? name a.target = some r := (hw.record?_eq name a.target).trans hr
  obtain ⟨c, hc, -⟩ := Option.bind_eq_some_iff.1 hr'
  obtain ⟨cells, hcells, hct⟩ := Option.bind_eq_some_iff.1 hc
  simp only [add, hcells, hc, hr']
  split
  · next hone => exact hw.wrote_set hc hone _
  · exact hw.wrote_append hcells (TargetMap.mem_of_get? hct) _

theorem Agrees.write (hw : h.Agrees w) (hv : w.Versioned) (hs : w.get? name = some s)
    {slot : Slot} (hslot : w.slot? name t = some slot) (f : Record → Record)
    (hwrote : h.Wrote h' name t (f slot.record)) : h'.Agrees (w.update name (s.write t f)) := by
  obtain ⟨hkeys, c, hc, hcr, hother⟩ := hwrote
  have hnew (n : String) (u : Target) : (w.update name (s.write t f)).slot? n u =
      if n = name ∧ u = t then some ⟨f slot.record, ⟨s.branch, s.writes + 1⟩⟩
      else w.slot? n u := by
    rw [Workspace.slot?_update_write hs, hslot]
    rfl
  refine ⟨fun n => ?_, fun {n u slot'} hs' => ?_,
    fun {n n' u u' d d' slot₁ slot₂} hd hs₁ hd' hs₂ => ?_⟩
  · rw [hkeys, hw.stores, Workspace.get?_update]
    split
    · next hn => rw [hn, hs, Option.map_some, Option.map_some, Store.targets_write]
    · rfl
  · rw [hnew] at hs'
    split at hs'
    · next hnu =>
      obtain ⟨rfl, rfl⟩ := hnu
      cases hs'
      exact ⟨c, hc, hcr⟩
    · next hnu =>
      obtain ⟨hcell, hsame⟩ := hother n u hnu
      obtain ⟨d, hd, hdr⟩ := hw.records hs'
      exact ⟨d, hcell.trans hd, (hsame d hd).2.trans hdr⟩
  · rw [hnew] at hs₁ hs₂
    -- The record written has a cell and a version of its own.
    have hapart {n : String} {u : Target} {d : Nat} {slot' : Slot} (hne : ¬(n = name ∧ u = t))
        (hd : h'.cell? n u = some d) (hs' : w.slot? n u = some slot') :
        d ≠ c ∧ slot'.version ≠ ⟨s.branch, s.writes + 1⟩ := by
      obtain ⟨hcell, hsame⟩ := hother n u hne
      exact ⟨(hsame d (hcell.symm.trans hd)).1, hv.ne_next hs' hs⟩
    by_cases h₁ : n = name ∧ u = t <;> by_cases h₂ : n' = name ∧ u' = t
    · obtain ⟨rfl, rfl⟩ := h₁
      obtain ⟨rfl, rfl⟩ := h₂
      exact iff_of_true (Option.some.inj (hd.symm.trans hd'))
        ⟨rfl, congrArg Slot.version (Option.some.inj (hs₁.symm.trans hs₂))⟩
    · rw [if_pos h₁] at hs₁
      rw [if_neg h₂] at hs₂
      obtain ⟨rfl, rfl⟩ := h₁
      cases hs₁
      cases hc.symm.trans hd
      obtain ⟨hcell, hversion⟩ := hapart h₂ hd' hs₂
      exact iff_of_false hcell.symm fun heq => hversion heq.2.symm
    · rw [if_neg h₁] at hs₁
      rw [if_pos h₂] at hs₂
      obtain ⟨rfl, rfl⟩ := h₂
      cases hs₂
      cases hc.symm.trans hd'
      obtain ⟨hcell, hversion⟩ := hapart h₁ hd hs₁
      exact iff_of_false hcell fun heq => hversion heq.2
    · rw [if_neg h₁] at hs₁
      rw [if_neg h₂] at hs₂
      exact hw.sharing ((hother n u h₁).1.symm.trans hd) hs₁
        ((hother n' u' h₂).1.symm.trans hd') hs₂

theorem Agrees.add (hw : h.Agrees w) (hv : w.Versioned) (name : String) (a : Addition) :
    (h.add name a).Agrees (w.step (.add name a)) := by
  have hrecord := hw.record?_eq name a.target
  cases hslot : w.slot? name a.target with
  | none =>
    rw [Workspace.record?_eq_map, hslot, Option.map_none] at hrecord
    have hadd : h.add name a = h := by
      unfold Heap.add
      rw [hrecord]
      split
      · next heq => cases heq
      · rfl
    have hstep : w.step (.add name a) = w := by
      cases hs : w.get? name with
      | none => simp only [Workspace.step, Workspace.change, hs]
      | some s =>
        rw [Workspace.slot?, hs, Option.bind_some] at hslot
        have ha : a.target ∉ s.targets := TargetMap.get?_eq_none_iff.1 hslot
        rw [Workspace.step, Workspace.change_of_get? hs, Store.accept_of_not_mem ha,
          Workspace.update_self hs]
    rwa [hadd, hstep]
  | some slot =>
    have hr : w.record? name a.target = some slot.record := by
      rw [Workspace.record?_eq_map, hslot]
      rfl
    obtain ⟨s, hs, hget⟩ := Option.bind_eq_some_iff.1 hslot
    have ha : a.target ∈ s.targets := TargetMap.mem_of_get? hget
    rw [Workspace.step, Workspace.change_of_get? hs, Store.accept_of_mem ha]
    exact hw.write hv hs hslot _ (hw.wrote hr)

theorem Agrees.addAll (hw : h.Agrees w) (hv : w.Versioned) (name : String)
    (as : List Addition) :
    (as.foldl (fun h a => h.add name a) h).Agrees ((as.map (Command.add name)).foldl
      Workspace.step w) := by
  induction as generalizing h w with
  | nil => exact hw
  | cons a as ih => exact ih (hw.add hv name a) (hv.step (.add name a))

theorem Agrees.step (hw : h.Agrees w) (hv : w.Versioned) {c : Command} (hc : h.Step c h') :
    h'.Agrees (w.step c) := by
  cases hc with
  | create name targets => exact hw.create hv name targets
  | fork name as => exact hw.fork name as
  | add name a => exact hw.add hv name a
  | @solve name b types order established as has =>
    have hsolve : w.step (.solve name b types order established) =
        (as.map (Command.add name)).foldl Workspace.step w := by
      rw [Workspace.foldl_add]
      cases hs : w.get? name with
      | none => simp only [Workspace.step, Workspace.change, hs]
      | some s =>
        rw [Workspace.step, Workspace.change_of_get? hs, Workspace.change_of_get? hs,
          has s (by rw [hw.contents?_eq, Workspace.contents?, hs]; rfl)]
    rw [hsolve]
    exact hw.addAll hv name as

/-- Every command can be carried out. -/
theorem Agrees.exists_step (hw : h.Agrees w) (c : Command) : ∃ h', h.Step c h' := by
  cases c with
  | create name targets => exact ⟨_, .create name targets⟩
  | fork name as => exact ⟨_, .fork name as⟩
  | add name a => exact ⟨_, .add name a⟩
  | solve name b types order established =>
    have hcontents := hw.contents?_eq name
    cases hs : w.get? name with
    | none =>
      rw [Workspace.contents?, hs, Option.map_none] at hcontents
      have hnone : ∀ s : Store, h.contents? name = some s.contents →
          ((b.strategy types order).solve s established).1 = s.acceptAll [] := fun s hsome => by
        rw [hcontents] at hsome
        cases hsome
      exact ⟨_, .solve hnone⟩
    | some s =>
      obtain ⟨as, found, has⟩ := b.exists_additions types order established s
      rw [Workspace.contents?, hs, Option.map_some] at hcontents
      exact ⟨_, .solve fun s' h => by
        rw [has s' (Option.some.inj (h.symm.trans hcontents))]⟩

theorem Agrees.runs (hw : h.Agrees w) (hv : w.Versioned) {cs : List Command}
    (hcs : h.Runs cs h') : h'.Agrees (cs.foldl Workspace.step w) := by
  induction hcs generalizing w with
  | nil => exact hw
  | cons hc _ ih => exact ih (hw.step hv hc) (hv.step _)

theorem Agrees.exists_runs (hw : h.Agrees w) (hv : w.Versioned) (cs : List Command) :
    ∃ h', h.Runs cs h' := by
  induction cs generalizing h w with
  | nil => exact ⟨h, .nil h⟩
  | cons c cs ih =>
    obtain ⟨h₁, hc⟩ := hw.exists_step c
    obtain ⟨h₂, hcs⟩ := ih (hw.step hv hc) (hv.step c)
    exact ⟨h₂, .cons hc hcs⟩

end Heap

/-! ## Isolation -/

namespace Workspace

theorem record?_of_shares {w : Workspace} {name name' : String} {t : Target} {h : Heap}
    (hw : h.Agrees w) (hshares : w.shares name name' t = true) :
    ∃ r, w.record? name t = some r ∧ w.record? name' t = some r := by
  obtain ⟨a, b, ha, hb, heq⟩ := shares_iff.1 hshares
  obtain ⟨c, hc, hr⟩ := hw.records ha
  obtain ⟨c', hc', hr'⟩ := hw.records hb
  obtain rfl : c = c' := (hw.sharing hc ha hc' hb).2 ⟨rfl, heq⟩
  refine ⟨a.record, by rw [record?_eq_map, ha]; rfl, ?_⟩
  rw [record?_eq_map, hb, Option.map_some, Option.some.inj (hr.symm.trans hr')]

/-- Whatever the commands, the stores show what they would if forks were full copies. A write
    changes no other record, shared records are equal, and no other store shares a record that has
    just been written; solving is writing. Copying a cell only when it is shared comes to the same,
    in what is shown and in what is shared. -/
theorem branches_isolated (cs : List Command) :
    let w := run cs
    (∀ name, w.contents? name = (deepRun cs).contents? name) ∧
    (∀ name a other t, other ≠ name ∨ t ≠ a.target →
      (w.step (.add name a)).record? other t = w.record? other t) ∧
    (∀ name name' t, w.shares name name' t = true →
      ∃ r, w.record? name t = some r ∧ w.record? name' t = some r) ∧
    (∀ name a other, other ≠ name →
      (w.step (.add name a)).shares name other a.target = false) ∧
    (∀ name b types order established, ∃ as : List Addition,
      w.step (.solve name b types order established) =
        (as.map (Command.add name)).foldl step w) ∧
    (∃ h, Heap.Runs ∅ cs h) ∧
    ∀ h, Heap.Runs ∅ cs h → (∀ name, h.contents? name = w.contents? name) ∧
      ∀ name name' t, h.shares name name' t = w.shares name name' t := by
  intro w
  have hagrees {h : Heap} (hcs : Heap.Runs ∅ cs h) : h.Agrees w :=
    Heap.agrees_empty.runs versioned_empty hcs
  obtain ⟨h, hcs⟩ := Heap.agrees_empty.exists_runs versioned_empty cs
  exact ⟨contents?_run cs, fun name a _ _ => record?_add_of_ne w name a,
    fun _ _ _ => record?_of_shares (hagrees hcs),
    fun name a _ => shares_add_self (versioned_run cs) name a, exists_step_solve w, ⟨h, hcs⟩,
    fun _ hcs => ⟨(hagrees hcs).contents?_eq, (hagrees hcs).shares_eq⟩⟩

/-- A fork taken after a write. -/
def forked : List Command :=
  [.create "base" [⟨1⟩, ⟨2⟩], .add "base" ⟨.chains, ⟨1⟩, .equal, .target ⟨2⟩ ∅⟩,
    .fork "base" "branch"]

theorem branches_isolated_forked :
    let a : Addition := ⟨.chains, ⟨1⟩, .subtype, .target ⟨2⟩ ∅⟩
    let w := run forked
    (∃ r, w.record? "base" ⟨1⟩ = some r ∧ w.record? "branch" ⟨1⟩ = some r) ∧
    (w.step (.add "branch" a)).record? "base" ⟨1⟩ = w.record? "base" ⟨1⟩ ∧
    (w.step (.add "branch" a)).shares "branch" "base" ⟨1⟩ = false ∧
    ∃ h, Heap.Runs ∅ forked h ∧ h.shares "base" "branch" ⟨1⟩ = true := by
  intro a w
  obtain ⟨-, hrecord, hshared, hapart, -, ⟨h, hcs⟩, hheap⟩ := branches_isolated forked
  have hshares : w.shares "base" "branch" ⟨1⟩ = true := by decide
  exact ⟨hshared "base" "branch" ⟨1⟩ hshares, hrecord "branch" a "base" ⟨1⟩ (.inl (by decide)),
    hapart "branch" a "base" (by decide), h, hcs,
    ((hheap h hcs).2 "base" "branch" ⟨1⟩).trans hshares⟩

end Workspace

end QualifiedInference
