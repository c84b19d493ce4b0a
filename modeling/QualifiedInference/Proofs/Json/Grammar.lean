-- SUMMARY: How nodes are written as JSON texts, and what the reader shows of such texts.
import QualifiedInference.Proofs.Json.Leaves
/-!
# Texts and what they show

How nodes are written as JSON texts: blanks may stand around every part. The reader shows the node
that a text writes if it holds all of it, and else breaks off in it: a number may be too large for a
float, half a surrogate pair is no character, and arrays and objects may be nested deeper than there
is room.
-/

namespace QualifiedInference

namespace Json

def Blanks (ws : List Char) : Prop := ∀ c ∈ ws, isBlank c = true

mutual

/-- A node and the text that writes it. What is written and cannot be held is a break. -/
inductive Node.Writes : Node → List Char → Prop
  | null : Node.Writes (.scalar (.ok .null)) ['n', 'u', 'l', 'l']
  | bool (b : Bool) : Node.Writes (.scalar (.ok (.bool b)))
    (if b then ['t', 'r', 'u', 'e'] else ['f', 'a', 'l', 's', 'e'])
  | number {n : Numeral} {s : Scalar} {cs : List Char} (h : n.Writes cs)
    (hs : n.value? = some s) : Node.Writes (.scalar (.ok s)) cs
  | excessive {n : Numeral} {cs : List Char} (h : n.Writes cs) (hs : n.value? = none) :
    Node.Writes (.scalar (.error .malformed)) cs
  | string {ps : List Piece} {s : List Char} (hps : ∀ p ∈ ps, p.IsJson)
    (hs : characters? ps = some s) :
    Node.Writes (.string (.ok (String.ofList s))) ('"' :: (ps.flatMap Piece.text ++ ['"']))
  | unpaired {ps : List Piece} (hps : ∀ p ∈ ps, p.IsJson) (hs : characters? ps = none) :
    Node.Writes (.string (.error .malformed)) ('"' :: (ps.flatMap Piece.text ++ ['"']))
  | array {items : Items} {cs : List Char} (h : Items.Writes items cs) :
    Node.Writes (.array items) ('[' :: cs)
  | object {members : Members} {cs : List Char} (h : Members.Writes members cs) :
    Node.Writes (.object members) ('\x7b' :: cs)

/-- The items of an array and its closing bracket. -/
inductive Items.Writes : Items → List Char → Prop
  | closed {ws : List Char} (hws : Blanks ws) : Items.Writes .closed (ws ++ [']'])
  | items {items : Items} {cs : List Char} (h : Items.WritesItem items cs) :
    Items.Writes items cs

/-- One item and what follows it. -/
inductive Items.WritesItem : Items → List Char → Prop
  | item {v : Node} {rest : Items} {ws cs ds : List Char} (hws : Blanks ws)
    (hv : Node.Writes v cs) (hrest : Items.WritesMore rest ds) :
    Items.WritesItem (.item v rest) (ws ++ (cs ++ ds))

/-- What follows an item. -/
inductive Items.WritesMore : Items → List Char → Prop
  | closed {ws : List Char} (hws : Blanks ws) : Items.WritesMore .closed (ws ++ [']'])
  | items {items : Items} {ws cs : List Char} (hws : Blanks ws) (h : Items.WritesItem items cs) :
    Items.WritesMore items (ws ++ ',' :: cs)

/-- The members of an object and its closing brace. -/
inductive Members.Writes : Members → List Char → Prop
  | closed {ws : List Char} (hws : Blanks ws) : Members.Writes .closed (ws ++ ['\x7d'])
  | members {members : Members} {cs : List Char} (h : Members.WritesMember members cs) :
    Members.Writes members cs

/-- One member and what follows it. -/
inductive Members.WritesMember : Members → List Char → Prop
  | member {name : Except Break String} {v : Node} {rest : Members}
    {ws₁ cs₁ ws₂ ws₃ cs₂ ds : List Char} (hws₁ : Blanks ws₁)
    (hname : Node.Writes (.string name) cs₁) (hws₂ : Blanks ws₂) (hws₃ : Blanks ws₃)
    (hv : Node.Writes v cs₂) (hrest : Members.WritesMore rest ds) :
    Members.WritesMember (.member (.string name) v rest)
      (ws₁ ++ (cs₁ ++ (ws₂ ++ ':' :: (ws₃ ++ (cs₂ ++ ds)))))

/-- What follows a member. -/
inductive Members.WritesMore : Members → List Char → Prop
  | closed {ws : List Char} (hws : Blanks ws) : Members.WritesMore .closed (ws ++ ['\x7d'])
  | members {members : Members} {ws cs : List Char} (hws : Blanks ws)
    (h : Members.WritesMember members cs) : Members.WritesMore members (ws ++ ',' :: cs)

end

/-- A whole text that writes the node. -/
def Node.WritesText (n : Node) (text : String) : Prop :=
  ∃ ws cs ws', Blanks ws ∧ Blanks ws' ∧ n.Writes cs ∧ text.toList = ws ++ (cs ++ ws')

/-! ## What can be held -/

mutual

/-- Nothing breaks off. -/
def Node.Whole : Node → Prop
  | .absent _ => False
  | .scalar s => ∃ a, s = .ok a
  | .string s => ∃ a, s = .ok a
  | .array items => items.Whole
  | .object members => members.Whole

def Items.Whole : Items → Prop
  | .closed => True
  | .broken _ => False
  | .item v rest => v.Whole ∧ rest.Whole

def Members.Whole : Members → Prop
  | .closed => True
  | .broken _ => False
  | .member name v rest => name.Whole ∧ v.Whole ∧ rest.Whole

end

mutual

/-- How deep arrays and objects are nested. -/
def Node.depth : Node → Nat
  | .absent _ => 0
  | .scalar _ => 0
  | .string _ => 0
  | .array items => items.depth + 1
  | .object members => members.depth + 1

def Items.depth : Items → Nat
  | .closed => 0
  | .broken _ => 0
  | .item v rest => max v.depth rest.depth

def Members.depth : Members → Nat
  | .closed => 0
  | .broken _ => 0
  | .member name v rest => max name.depth (max v.depth rest.depth)

end

/-! ## Blanks -/

variable {ws cs rest : List Char}

theorem skipBlanks_append (hws : Blanks ws) (cs : List Char) :
    skipBlanks (ws ++ cs) = skipBlanks cs := by
  induction ws with
  | nil => rfl
  | cons c ws ih =>
    rw [List.cons_append, skipBlanks, List.dropWhile_cons_of_pos (hws c (.head _))]
    exact ih fun d hd => hws d (.tail _ hd)

theorem skipBlanks_cons {c : Char} (hc : isBlank c = false) (cs : List Char) :
    skipBlanks (c :: cs) = c :: cs := by
  rw [skipBlanks, List.dropWhile_cons_of_neg (by simp [hc])]

theorem shown_readValue_blanks (room : Nat) (hws : Blanks ws) (cs : List Char) :
    shown (readValue room (ws ++ cs)) = shown (readValue room cs) := by
  rw [shown_readValue, shown_readValue, skipBlanks_append hws]

/-- No number goes on with a blank, nor with one of the signs that may follow a value. -/
theorem numberEnds_cons {c : Char} (hc : isBlank c = true ∨ c ∈ [',', ']', '\x7d', ':'])
    (cs : List Char) : NumberEnds (c :: cs) := by
  have hc' : c.isDigit = false ∧ c ≠ '.' ∧ ¬(c = 'e' ∨ c = 'E') := by
    simp only [isBlank, Bool.or_eq_true, beq_iff_eq, List.mem_cons, List.not_mem_nil, or_false]
      at hc
    rcases hc with (((rfl | rfl) | rfl) | rfl) | rfl | rfl | rfl | rfl <;> decide
  refine ⟨fun d hd => ?_, fun hd => ?_, fun d hd => ?_⟩ <;> cases hd
  · exact hc'.1
  · exact hc'.2.1 rfl
  · exact hc'.2.2

theorem numberEnds_append {c : Char} (hws : Blanks ws) (hc : c ∈ [',', ']', '\x7d', ':'])
    (cs : List Char) : NumberEnds (ws ++ c :: cs) := by
  cases ws with
  | nil => exact numberEnds_cons (.inr hc) cs
  | cons d ws => exact numberEnds_cons (.inl (hws d (.head _))) _

theorem Items.WritesMore.numberEnds {items : Items} (h : items.WritesMore cs) :
    NumberEnds (cs ++ rest) := by
  cases h with
  | closed hws => rw [List.append_assoc]; exact numberEnds_append hws (by simp) rest
  | items hws => rw [List.append_assoc]; exact numberEnds_append hws (by simp) _

theorem Members.WritesMore.numberEnds {members : Members} (h : members.WritesMore cs) :
    NumberEnds (cs ++ rest) := by
  cases h with
  | closed hws => rw [List.append_assoc]; exact numberEnds_append hws (by simp) rest
  | members hws => rw [List.append_assoc]; exact numberEnds_append hws (by simp) _

/-! ## Leaves -/

theorem shown_leaf {n : Nat} {α : Type} (toNode : Except Break α → Node) (r : Front n α) :
    shown (leaf toNode r) =
      match r.seen with
      | .ok (a, rest) => (toNode (.ok a), some rest)
      | .error b => (toNode (.error b), none) := by
  obtain b | ⟨a, rest, lt⟩ := r <;> rfl

theorem shown_readLeaf_string {ps : List Piece} (hps : ∀ p ∈ ps, p.IsJson) (rest : List Char) :
    match characters? ps with
    | some s => shown (readLeaf '"' (ps.flatMap Piece.text ++ '"' :: rest)) =
        (.string (.ok (String.ofList s)), some rest)
    | none => ∃ b, shown (readLeaf '"' (ps.flatMap Piece.text ++ '"' :: rest)) =
        (.string (.error b), none) := by
  have htakes := takes_readChars hps rest
  unfold Takes at htakes
  show match characters? ps with
    | some s => shown (leaf .string (readString _)) = _
    | none => ∃ b, shown (leaf .string (readString _)) = _
  cases hs : characters? ps with
  | some s =>
    rw [hs] at htakes
    obtain ⟨lt, hread⟩ := Front.seen_eq_ok.1 htakes
    dsimp only
    rw [shown_leaf, readString, hread]
    rfl
  | none =>
    rw [hs] at htakes
    obtain ⟨b, hb⟩ := htakes
    refine ⟨b, ?_⟩
    rw [shown_leaf, readString, Front.seen_eq_error.1 hb]
    rfl

theorem Numeral.Writes.exists_cons {n : Numeral} (h : n.Writes cs) :
    ∃ c tl, cs = c :: tl ∧ (c = '-' ∨ c.isDigit = true) := by
  obtain @⟨negative, whole, fraction?, exponent?, cs₁, cs₂, cs₃, h₁, -, -⟩ := h
  cases negative with
  | true => exact ⟨'-', _, rfl, .inl rfl⟩
  | false =>
    cases h₁ with
    | zero => exact ⟨'0', _, rfl, .inr rfl⟩
    | @digits c ds hds => exact ⟨c, _, rfl, .inr (hds.2 c (.head _))⟩

theorem readLeaf_number {c : Char} (hc : c = '-' ∨ c.isDigit = true) (cs : List Char) :
    readLeaf c cs = leaf .scalar (readNumber (c :: cs)) := by
  unfold readLeaf
  split
  · exact absurd hc (by decide)
  · exact absurd hc (by decide)
  · exact absurd hc (by decide)
  · exact absurd hc (by decide)
  · exact if_pos hc

theorem of_numberStart {c : Char} (hc : c = '-' ∨ c.isDigit = true) :
    isBlank c = false ∧ c ∉ ['[', ']', '\x7b', '\x7d'] := by
  have hne {d : Char} (hd : ¬(d = '-' ∨ d.isDigit = true)) : c ≠ d := fun h => hd (h ▸ hc)
  constructor
  · simp only [isBlank, Bool.or_eq_false_iff, beq_eq_false_iff_ne]
    exact ⟨⟨⟨hne (by decide), hne (by decide)⟩, hne (by decide)⟩, hne (by decide)⟩
  · simp only [List.mem_cons, List.not_mem_nil, or_false, not_or]
    exact ⟨hne (by decide), hne (by decide), hne (by decide), hne (by decide)⟩

/-- No value begins with a blank or with the end of a collection. -/
theorem Node.Writes.exists_cons {n : Node} (h : n.Writes cs) :
    ∃ c tl, cs = c :: tl ∧ isBlank c = false ∧ c ≠ ']' ∧ c ≠ '\x7d' := by
  have hnumber {n : Numeral} {cs : List Char} (h : n.Writes cs) :
      ∃ c tl, cs = c :: tl ∧ isBlank c = false ∧ c ≠ ']' ∧ c ≠ '\x7d' := by
    obtain ⟨c, tl, rfl, hc⟩ := h.exists_cons
    obtain ⟨hblank, hne⟩ := of_numberStart hc
    exact ⟨c, tl, rfl, hblank, fun h => hne (by simp [h]), fun h => hne (by simp [h])⟩
  cases h with
  | number h => exact hnumber h
  | excessive h => exact hnumber h
  | bool b => cases b <;> exact ⟨_, _, rfl, by decide⟩
  | _ => exact ⟨_, _, rfl, by decide⟩

theorem shown_readValue_leaf {c : Char} (room : Nat) (hblank : isBlank c = false)
    (harray : c ≠ '[') (hobject : c ≠ '\x7b') (cs : List Char) :
    shown (readValue room (c :: cs)) = shown (readLeaf c cs) := by
  rw [shown_readValue, skipBlanks_cons hblank]
  exact (if_neg harray).trans (if_neg hobject)

theorem shown_readValue_number (room : Nat) {n : Numeral} (h : n.Writes cs)
    (hrest : NumberEnds rest) : shown (readValue room (cs ++ rest)) =
      match n.value? with
      | some s => (.scalar (.ok s), some rest)
      | none => (.scalar (.error .malformed), none) := by
  have hread := seen_readNumber h hrest
  obtain ⟨c, tl, rfl, hc⟩ := h.exists_cons
  obtain ⟨hblank, hne⟩ := of_numberStart hc
  rw [List.cons_append, shown_readValue_leaf room hblank (fun h => hne (by simp [h]))
    (fun h => hne (by simp [h])), readLeaf_number hc, shown_leaf]
  rw [List.cons_append] at hread
  rw [hread]
  cases n.value? <;> rfl

/-! ## Writing without blanks -/

theorem Node.Writes.plain {s : String} (hs : s.toList.all fun c => (Piece.plain c).IsJson) :
    Node.Writes (.string (.ok s)) ('"' :: (s.toList ++ ['"'])) := by
  have htext (cs : List Char) : (cs.map Piece.plain).flatMap Piece.text = cs := by
    induction cs with
    | nil => rfl
    | cons c cs ih => exact congrArg (c :: ·) ih
  have hchars (cs : List Char) : characters? (cs.map .plain) = some cs := by
    induction cs with
    | nil => rfl
    | cons c cs ih => simp [characters?, ih]
  have hpieces : ∀ p ∈ s.toList.map Piece.plain, p.IsJson :=
    List.forall_mem_map.2 fun c hc => of_decide_eq_true (List.all_eq_true.1 hs c hc)
  have h := Node.Writes.string hpieces (hchars s.toList)
  rwa [htext, String.ofList_toList] at h

theorem blanks_nil : Blanks [] := nofun

theorem Items.Writes.nil : Items.Writes .closed [']'] := .closed blanks_nil

theorem Items.WritesMore.nil : Items.WritesMore .closed [']'] := .closed blanks_nil

section Collections

variable {v : Node} {items : Items} {members : Members} {name : String} {ds : List Char}

theorem Items.Writes.cons (hv : v.Writes cs) (h : items.WritesMore ds) :
    Items.Writes (.item v items) (cs ++ ds) := .items (.item blanks_nil hv h)

theorem Items.WritesMore.cons (hv : v.Writes cs) (h : items.WritesMore ds) :
    Items.WritesMore (.item v items) (',' :: (cs ++ ds)) :=
  .items blanks_nil (.item blanks_nil hv h)

theorem Members.WritesMore.nil : Members.WritesMore .closed ['\x7d'] := .closed blanks_nil

theorem Members.WritesMember.plain (hname : name.toList.all fun c => (Piece.plain c).IsJson)
    (hv : v.Writes cs) (h : members.WritesMore ds) :
    Members.WritesMember (.member (.string (.ok name)) v members)
      (('"' :: (name.toList ++ ['"'])) ++ ':' :: (cs ++ ds)) :=
  .member blanks_nil (.plain hname) blanks_nil blanks_nil hv h

theorem Members.WritesMore.cons (hname : name.toList.all fun c => (Piece.plain c).IsJson)
    (hv : v.Writes cs) (h : members.WritesMore ds) :
    Members.WritesMore (.member (.string (.ok name)) v members)
      (',' :: (('"' :: (name.toList ++ ['"'])) ++ ':' :: (cs ++ ds))) :=
  .members blanks_nil (.plain hname hv h)

end Collections

/-! ## Reading -/

/-- The reader has shown `a` and goes on with `rest` if `a` can be held, and has broken off in it
    if not. -/
def Shows {α : Type} (whole : α → Prop) (depth : α → Nat) (room : Nat)
    (r : α × Option (List Char)) (a : α) (rest : List Char) : Prop :=
  (whole a → depth a ≤ room → r = (a, some rest)) ∧
    (¬(whole a ∧ depth a ≤ room) → r.2 = none ∧ ¬whole r.1)

section Shows

variable {α : Type} {whole : α → Prop} {depth : α → Nat} {room : Nat}
  {r : α × Option (List Char)} {a : α}

theorem Shows.of_whole (hwhole : whole a) (hdepth : depth a ≤ room) (h : r = (a, some rest)) :
    Shows whole depth room r a rest :=
  ⟨fun _ _ => h, fun hnot => absurd ⟨hwhole, hdepth⟩ hnot⟩

theorem Shows.of_broken (hbroken : ¬(whole a ∧ depth a ≤ room)) (hrest : r.2 = none)
    (hr : ¬whole r.1) : Shows whole depth room r a rest :=
  ⟨fun hwhole hdepth => absurd ⟨hwhole, hdepth⟩ hbroken, fun _ => ⟨hrest, hr⟩⟩

end Shows

/-- A collection is read with less room than the value that it is. -/
theorem Shows.value {α : Type} {whole : α → Prop} {depth : α → Nat} {room : Nat}
    {r : α × Option (List Char)} {a : α} (h : Shows whole depth room r a rest)
    (toNode : α → Node) (hwhole : ∀ a, (toNode a).Whole ↔ whole a)
    (hdepth : ∀ a, (toNode a).depth = depth a + 1) :
    Shows Node.Whole Node.depth (room + 1) (toNode r.1, r.2) (toNode a) rest := by
  refine ⟨fun hw hd => ?_, fun hnot => ?_⟩
  · rw [hdepth] at hd
    rw [h.1 ((hwhole a).1 hw) (Nat.le_of_succ_le_succ hd)]
  · have hnot' : ¬(whole a ∧ depth a ≤ room) := fun ⟨hw, hd⟩ =>
      hnot ⟨(hwhole a).2 hw, by rw [hdepth]; exact Nat.succ_le_succ hd⟩
    obtain ⟨hrest, hr⟩ := h.2 hnot'
    exact ⟨hrest, fun hw => hr ((hwhole r.1).1 hw)⟩

theorem Items.WritesItem.skipBlanks_eq {items : Items} (h : items.WritesItem cs)
    (rest : List Char) : ∃ c tl, skipBlanks (cs ++ rest) = c :: tl ∧ c ≠ ']' := by
  cases h with
  | item hws hv hrest =>
    obtain ⟨c, tl, rfl, hblank, hc, -⟩ := hv.exists_cons
    rw [List.append_assoc, skipBlanks_append hws, List.cons_append, List.cons_append,
      skipBlanks_cons hblank]
    exact ⟨c, _, rfl, hc⟩

theorem Members.WritesMember.skipBlanks_eq {members : Members} (h : members.WritesMember cs)
    (rest : List Char) : ∃ c tl, skipBlanks (cs ++ rest) = c :: tl ∧ c ≠ '\x7d' := by
  cases h with
  | member hws hname =>
    obtain ⟨c, tl, rfl, hblank, -, hc⟩ := hname.exists_cons
    rw [List.append_assoc, skipBlanks_append hws, List.cons_append, List.cons_append,
      skipBlanks_cons hblank]
    exact ⟨c, _, rfl, hc⟩

theorem shown_readItems_of_ne {c : Char} (room : Nat) (h : skipBlanks cs = c :: rest)
    (hc : c ≠ ']') : shown (readItems room cs) = shown (readItem room cs) := by
  rw [shown_readItems, h]
  split
  · next heq => cases heq
  · next heq => cases heq; exact absurd rfl hc
  · rfl

theorem shown_readMembers_of_ne {c : Char} (room : Nat) (h : skipBlanks cs = c :: rest)
    (hc : c ≠ '\x7d') : shown (readMembers room cs) = shown (readMember room cs) := by
  rw [shown_readMembers, h]
  split
  · next heq => cases heq
  · next heq => cases heq; exact absurd rfl hc
  · rfl

/-- An item is shown, and what follows it. -/
theorem Shows.item {room : Nat} {v : Node} {items : Items} {cs ds rest : List Char}
    (hv : Shows Node.Whole Node.depth room (shown (readValue room cs)) v ds)
    (hrest : Shows Items.Whole Items.depth room (shown (readMoreItems room ds)) items rest) :
    Shows Items.Whole Items.depth room (shown (readItem room cs)) (.item v items) rest := by
  rw [shown_readItem]
  by_cases hfits : v.Whole ∧ v.depth ≤ room
  · rw [hv.1 hfits.1 hfits.2]
    refine ⟨fun hw hd => ?_, fun hnot => ?_⟩
    · simp only [hrest.1 hw.2 (Nat.le_trans (Nat.le_max_right ..) hd)]
    · have hnot' : ¬(items.Whole ∧ items.depth ≤ room) := fun ⟨hw, hd⟩ =>
        hnot ⟨⟨hfits.1, hw⟩, Nat.max_le.2 ⟨hfits.2, hd⟩⟩
      exact ⟨(hrest.2 hnot').1, fun hw => (hrest.2 hnot').2 hw.2⟩
  · obtain ⟨hnone, hbroken⟩ := hv.2 hfits
    refine .of_broken (fun ⟨hw, hd⟩ => hfits ⟨hw.1, Nat.le_trans (Nat.le_max_left ..) hd⟩) ?_ ?_
    all_goals
      split
      · next heq => first | rfl | exact fun hw => hw.2
      · next heq => rw [heq] at hnone; cases hnone

/-- A member is shown, and what follows it. -/
theorem Shows.member {room : Nat} {name : Except Break String} {v : Node} {members : Members}
    {cs cs' ds rest : List Char}
    (hname : Shows Node.Whole Node.depth room (shown (readValue room cs)) (.string name) cs')
    (hv : Shows Node.Whole Node.depth room (shown (readNamed room cs')) v ds)
    (hrest : Shows Members.Whole Members.depth room (shown (readMoreMembers room ds)) members
      rest) :
    Shows Members.Whole Members.depth room (shown (readMember room cs))
      (.member (.string name) v members) rest := by
  rw [shown_readMember]
  obtain b | key := name
  · -- A name that is no string of characters breaks off.
    obtain ⟨hnone, hbroken⟩ := hname.2 (fun h => by obtain ⟨_, heq⟩ := h.1; cases heq)
    refine .of_broken (fun h => by obtain ⟨_, heq⟩ := h.1.1; cases heq) ?_ ?_
    all_goals
      split
      · next heq => rw [heq] at hnone; cases hnone
      · next heq => first | rfl | exact fun hw => hw.2.2
  · rw [hname.1 ⟨key, rfl⟩ (Nat.zero_le _)]
    dsimp only
    by_cases hfits : v.Whole ∧ v.depth ≤ room
    · rw [hv.1 hfits.1 hfits.2]
      refine ⟨fun hw hd => ?_, fun hnot => ?_⟩
      · have hd' := Nat.le_trans (Nat.le_trans (Nat.le_max_right ..) (Nat.le_max_right ..)) hd
        simp only [hrest.1 hw.2.2 hd']
      · have hnot' : ¬(members.Whole ∧ members.depth ≤ room) := fun ⟨hw, hd⟩ =>
          hnot ⟨⟨⟨key, rfl⟩, hfits.1, hw⟩, Nat.max_le.2 ⟨Nat.zero_le _, Nat.max_le.2 ⟨hfits.2, hd⟩⟩⟩
        exact ⟨(hrest.2 hnot').1, fun hw => (hrest.2 hnot').2 hw.2.2⟩
    · obtain ⟨hnone, hbroken⟩ := hv.2 hfits
      refine .of_broken (fun ⟨hw, hd⟩ => hfits ⟨hw.2.1,
        Nat.le_trans (Nat.le_trans (Nat.le_max_left ..) (Nat.le_max_right ..)) hd⟩) ?_ ?_
      all_goals
        split
        · next heq => first | rfl | exact fun hw => hw.2.2
        · next heq => rw [heq] at hnone; cases hnone

mutual

theorem shows_readValue {n : Node} {cs rest : List Char} (room : Nat) (hrest : NumberEnds rest) :
    n.Writes cs → Shows Node.Whole Node.depth room (shown (readValue room (cs ++ rest))) n rest
  | .null => .of_whole ⟨_, rfl⟩ (Nat.zero_le _)
      (shown_readValue_leaf room (by decide) (by decide) (by decide) _)
  | .bool true => .of_whole ⟨_, rfl⟩ (Nat.zero_le _)
      (shown_readValue_leaf room (by decide) (by decide) (by decide) _)
  | .bool false => .of_whole ⟨_, rfl⟩ (Nat.zero_le _)
      (shown_readValue_leaf room (by decide) (by decide) (by decide) _)
  | .number h hs => .of_whole ⟨_, rfl⟩ (Nat.zero_le _) (by
      rw [shown_readValue_number room h hrest, hs])
  | .excessive h hs => by
    have hread := shown_readValue_number room h hrest
    rw [hs] at hread
    rw [hread]
    exact .of_broken nofun rfl nofun
  | .string hps hs => by
    have hleaf := shown_readLeaf_string hps rest
    rw [hs] at hleaf
    refine .of_whole ⟨_, rfl⟩ (Nat.zero_le _) ?_
    rw [List.cons_append, List.append_assoc]
    exact (shown_readValue_leaf room (by decide) (by decide) (by decide) _).trans hleaf
  | .unpaired hps hs => by
    have hleaf := shown_readLeaf_string hps rest
    rw [hs] at hleaf
    obtain ⟨b, hb⟩ := hleaf
    rw [List.cons_append, List.append_assoc,
      shown_readValue_leaf room (by decide) (by decide) (by decide)]
    exact hb ▸ .of_broken nofun rfl nofun
  | .array h => by
    rw [List.cons_append, shown_readValue, skipBlanks_cons (by decide)]
    dsimp only
    rw [if_pos rfl]
    cases room with
    | zero => exact .of_broken (fun h => Nat.not_succ_le_zero _ h.2) rfl id
    | succ room =>
      exact (shows_readItems room rest h).value .array (fun _ => Iff.rfl) fun _ => rfl
  | .object h => by
    rw [List.cons_append, shown_readValue, skipBlanks_cons (by decide)]
    dsimp only
    rw [if_neg (by decide), if_pos rfl]
    cases room with
    | zero => exact .of_broken (fun h => Nat.not_succ_le_zero _ h.2) rfl id
    | succ room =>
      exact (shows_readMembers room rest h).value .object (fun _ => Iff.rfl)
        fun _ => rfl

theorem shows_readItems {items : Items} {cs : List Char} (room : Nat) (rest : List Char) :
    items.Writes cs →
      Shows Items.Whole Items.depth room (shown (readItems room (cs ++ rest))) items rest
  | .closed hws => by
    rw [List.append_assoc, shown_readItems, skipBlanks_append hws]
    exact .of_whole trivial (Nat.zero_le _) rfl
  | .items h => by
    obtain ⟨c, tl, hskip, hc⟩ := h.skipBlanks_eq rest
    rw [shown_readItems_of_ne room hskip hc]
    exact shows_readItem room rest h

theorem shows_readItem {items : Items} {cs : List Char} (room : Nat) (rest : List Char) :
    items.WritesItem cs →
      Shows Items.Whole Items.depth room (shown (readItem room (cs ++ rest))) items rest
  | .item hws hv hrest => by
    rw [List.append_assoc, List.append_assoc]
    refine Shows.item ?_ (shows_readMoreItems room rest hrest)
    rw [shown_readValue_blanks room hws]
    exact shows_readValue room hrest.numberEnds hv

theorem shows_readMoreItems {items : Items} {cs : List Char} (room : Nat) (rest : List Char) :
    items.WritesMore cs →
      Shows Items.Whole Items.depth room (shown (readMoreItems room (cs ++ rest))) items rest
  | .closed hws => by
    rw [List.append_assoc, shown_readMoreItems, skipBlanks_append hws]
    exact .of_whole trivial (Nat.zero_le _) rfl
  | .items hws h => by
    rw [List.append_assoc, shown_readMoreItems, skipBlanks_append hws]
    exact shows_readItem room rest h

theorem shows_readMembers {members : Members} {cs : List Char} (room : Nat) (rest : List Char) :
    members.Writes cs →
      Shows Members.Whole Members.depth room (shown (readMembers room (cs ++ rest))) members rest
  | .closed hws => by
    rw [List.append_assoc, shown_readMembers, skipBlanks_append hws]
    exact .of_whole trivial (Nat.zero_le _) rfl
  | .members h => by
    obtain ⟨c, tl, hskip, hc⟩ := h.skipBlanks_eq rest
    rw [shown_readMembers_of_ne room hskip hc]
    exact shows_readMember room rest h

theorem shows_readMember {members : Members} {cs : List Char} (room : Nat) (rest : List Char) :
    members.WritesMember cs →
      Shows Members.Whole Members.depth room (shown (readMember room (cs ++ rest))) members rest
  | @Members.WritesMember.member _ v _ _ _ ws₂ ws₃ cs₂ ds hws₁ hname hws₂ hws₃ hv hrest => by
    have hnamed : Shows Node.Whole Node.depth room
        (shown (readNamed room (ws₂ ++ ':' :: (ws₃ ++ (cs₂ ++ (ds ++ rest)))))) v (ds ++ rest) := by
      rw [shown_readNamed, skipBlanks_append hws₂]
      show Shows _ _ _ (shown (readValue room (ws₃ ++ (cs₂ ++ (ds ++ rest))))) _ _
      rw [shown_readValue_blanks room hws₃]
      exact shows_readValue room hrest.numberEnds hv
    rw [List.append_assoc, List.append_assoc, List.append_assoc, List.cons_append,
      List.append_assoc, List.append_assoc]
    refine Shows.member ?_ hnamed (shows_readMoreMembers room rest hrest)
    rw [shown_readValue_blanks room hws₁]
    exact shows_readValue room (numberEnds_append hws₂ (by simp) _) hname

theorem shows_readMoreMembers {members : Members} {cs : List Char} (room : Nat)
    (rest : List Char) : members.WritesMore cs →
      Shows Members.Whole Members.depth room (shown (readMoreMembers room (cs ++ rest))) members
        rest
  | .closed hws => by
    rw [List.append_assoc, shown_readMoreMembers, skipBlanks_append hws]
    exact .of_whole trivial (Nat.zero_le _) rfl
  | .members hws h => by
    rw [List.append_assoc, shown_readMoreMembers, skipBlanks_append hws]
    exact shows_readMember room rest h

end

/-! ## Whole texts -/

theorem ofText_eq (text : String) : Document.ofText text =
    match shown (readValue maxDepth text.toList) with
    | (root, none) => ⟨root, false⟩
    | (root, some rest) => ⟨root, !(skipBlanks rest).isEmpty⟩ := by
  unfold Document.ofText
  split
  · next heq => rw [heq]; rfl
  · next heq => rw [heq]; rfl

theorem Node.WritesText.shows {n : Node} {text : String} (h : n.WritesText text) :
    ∃ ws', Blanks ws' ∧
      Shows Node.Whole Node.depth maxDepth (shown (readValue maxDepth text.toList)) n ws' := by
  obtain ⟨ws, cs, ws', hws, hws', hn, htext⟩ := h
  have hends : NumberEnds ws' := by
    cases ws' with
    | nil => exact ⟨nofun, nofun, nofun⟩
    | cons c ws' => exact numberEnds_cons (.inl (hws' c (.head _))) ws'
  refine ⟨ws', hws', ?_⟩
  rw [htext, shown_readValue_blanks maxDepth hws]
  exact shows_readValue maxDepth hends hn

/-- The reader shows what a text writes, if it can be held. -/
theorem Document.ofText_eq_of_writes {n : Node} {text : String} (h : n.WritesText text)
    (hwhole : n.Whole) (hdepth : n.depth ≤ maxDepth) : Document.ofText text = ⟨n, false⟩ := by
  obtain ⟨ws', hws', hshows⟩ := h.shows
  have hblanks : skipBlanks ws' = [] := by
    have hskip := skipBlanks_append hws' []
    rwa [List.append_nil] at hskip
  rw [ofText_eq, hshows.1 hwhole hdepth]
  simp only [hblanks, List.isEmpty_nil, Bool.not_true]

/-- The reader breaks off in a text that writes what cannot be held. -/
theorem Document.not_whole_ofText {n : Node} {text : String} (h : n.WritesText text)
    (hnot : ¬(n.Whole ∧ n.depth ≤ maxDepth)) : ¬(Document.ofText text).root.Whole := by
  obtain ⟨ws', -, hshows⟩ := h.shows
  obtain ⟨hnone, hbroken⟩ := hshows.2 hnot
  rw [ofText_eq]
  split
  · next heq => rwa [heq] at hbroken
  · next heq => rw [heq] at hnone; cases hnone

end Json

end QualifiedInference
