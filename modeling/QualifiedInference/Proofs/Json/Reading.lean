-- SUMMARY: The JSON readers by equations, without the proofs by which they end.
import QualifiedInference.Json.Reader
/-!
# Reading without measures

The readers carry proofs that the rest of a text is shorter, by which they end. `shown` forgets
them, and each reader is then told by one equation.
-/

namespace QualifiedInference

namespace Json

def Rest.text? {n : Nat} : Rest n → Option (List Char)
  | none => none
  | some ⟨rest, _⟩ => some rest

@[simp] theorem Rest.text?_lengthen {m n : Nat} (h : m ≤ n) (r : Rest m) :
    (r.lengthen h).text? = r.text? := by
  cases r <;> rfl

/-- What was read, and the rest of the text if it is complete. -/
def shown {α : Type} {n : Nat} (r : α × Rest n) : α × Option (List Char) := (r.1, r.2.text?)

variable (room : Nat) (cs : List Char)

theorem shown_readValue : shown (readValue room cs) =
    match skipBlanks cs with
    | [] => (.absent .unfinished, none)
    | c :: rest =>
      if c = '[' then
        if room = 0 then (.array (.broken .malformed), none)
        else
          let r := shown (readItems (room - 1) rest)
          (.array r.1, r.2)
      else if c = '\x7b' then
        if room = 0 then (.object (.broken .malformed), none)
        else
          let r := shown (readMembers (room - 1) rest)
          (.object r.1, r.2)
      else shown (readLeaf c rest) := by
  unfold readValue
  split
  · next h => rw [h]; rfl
  · next c rest h =>
    simp only [h]
    split
    · split
      · rfl
      · simp only [shown, Rest.text?_lengthen]
    · split
      · split
        · rfl
        · simp only [shown, Rest.text?_lengthen]
      · simp only [shown, Rest.text?_lengthen]

/-! ## Arrays -/

theorem shown_readItems : shown (readItems room cs) =
    match skipBlanks cs with
    | [] => (.broken .unfinished, none)
    | ']' :: rest => (.closed, some rest)
    | _ => shown (readItem room cs) := by
  unfold readItems
  split
  · next h => rw [h]; rfl
  · next rest h => simp only [h]; rfl
  · next hnil hclosed =>
    split
    · next h => exact absurd h hnil
    · next rest h => exact absurd h (hclosed rest)
    · rfl

theorem shown_readItem : shown (readItem room cs) =
    match shown (readValue room cs) with
    | (value, none) => (.item value (.broken .malformed), none)
    | (value, some rest) =>
      let r := shown (readMoreItems room rest)
      (.item value r.1, r.2) := by
  unfold readItem
  split
  · next value h => rw [h]; rfl
  · next value rest hlt h =>
    rw [h]
    exact Prod.ext rfl (Rest.text?_lengthen (Nat.le_of_lt hlt) _)

theorem shown_readMoreItems : shown (readMoreItems room cs) =
    match skipBlanks cs with
    | [] => (.broken .unfinished, none)
    | c :: rest =>
      if c = ']' then (.closed, some rest)
      else if c = ',' then shown (readItem room rest)
      else (.broken .malformed, none) := by
  unfold readMoreItems
  split
  · next h => rw [h]; rfl
  · next c rest h =>
    simp only [h]
    split
    · rfl
    · split
      · simp only [shown, Rest.text?_lengthen]
      · rfl

/-! ## Objects -/

theorem shown_readMembers : shown (readMembers room cs) =
    match skipBlanks cs with
    | [] => (.broken .unfinished, none)
    | '\x7d' :: rest => (.closed, some rest)
    | _ => shown (readMember room cs) := by
  unfold readMembers
  split
  · next h => rw [h]; rfl
  · next rest h => simp only [h]; rfl
  · next hnil hclosed =>
    split
    · next h => exact absurd h hnil
    · next rest h => exact absurd h (hclosed rest)
    · rfl

theorem shown_readNamed : shown (readNamed room cs) =
    match skipBlanks cs with
    | [] => (.absent .unfinished, none)
    | ':' :: rest => shown (readValue room rest)
    | _ => (.absent .malformed, none) := by
  unfold readNamed
  split
  · next h => rw [h]; rfl
  · next rest h => simp only [h, shown, Rest.text?_lengthen]
  · next hnil hcolon =>
    split
    · next h => exact absurd h hnil
    · next rest h => exact absurd h (hcolon rest)
    · rfl

theorem shown_readMember : shown (readMember room cs) =
    match shown (readValue room cs) with
    | (.string (.ok name), some rest) =>
      match shown (readNamed room rest) with
      | (value, none) => (.member (.string (.ok name)) value (.broken .malformed), none)
      | (value, some rest') =>
        let r := shown (readMoreMembers room rest')
        (.member (.string (.ok name)) value r.1, r.2)
    | (name, _) => (.member name (.absent .malformed) (.broken .malformed), none) := by
  unfold readMember
  split
  · next name rest hlt h =>
    rw [h]
    split
    · next value h' => simp only [shown, Rest.text?, h']
    · next value rest' hlt' h' =>
      simp only [shown, Rest.text?, h']
      exact Prod.ext rfl (Rest.text?_lengthen ..)
  · next name r hne h =>
    rw [h]
    simp only [shown]
    split
    · next name' rest' heq =>
      cases r with
      | none => cases heq
      | some r =>
        cases heq
        exact absurd rfl (hne _ _ _ rfl)
    · next heq => cases heq; rfl

theorem shown_readMoreMembers : shown (readMoreMembers room cs) =
    match skipBlanks cs with
    | [] => (.broken .unfinished, none)
    | c :: rest =>
      if c = '\x7d' then (.closed, some rest)
      else if c = ',' then shown (readMember room rest)
      else (.broken .malformed, none) := by
  unfold readMoreMembers
  split
  · next h => rw [h]; rfl
  · next c rest h =>
    simp only [h]
    split
    · rfl
    · split
      · simp only [shown, Rest.text?_lengthen]
      · rfl

end Json

end QualifiedInference
