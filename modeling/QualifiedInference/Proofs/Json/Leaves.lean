-- SUMMARY: How strings and numbers are written in JSON, and that their readers take them off a text.
import QualifiedInference.Proofs.Json.Reading
/-!
# Values without parts

How strings and numbers are written in JSON texts, and that the readers take them off the front of
a text. A string is a list of pieces: characters that stand for themselves and escapes. Half a
surrogate pair is a piece, but no part of a string of characters.
-/

namespace QualifiedInference

namespace Json

/-! ## Strings -/

/-- A piece of a string as it is written. -/
inductive Piece where
  | plain (c : Char)
  /-- A character after a backslash. -/
  | short (c : Char)
  /-- Four hexadecimal digits after `\u`. -/
  | unit (a b c d : Char)

/-- What a character after a backslash stands for. -/
def shortEscape? : Char → Option Char
  | '"' => some '"'
  | '\\' => some '\\'
  | '/' => some '/'
  | 'b' => some '\x08'
  | 'f' => some '\x0c'
  | 'n' => some '\n'
  | 'r' => some '\r'
  | 't' => some '\t'
  | _ => none

namespace Piece

def text : Piece → List Char
  | plain c => [c]
  | short c => ['\\', c]
  | unit a b c d => ['\\', 'u', a, b, c, d]

def IsJson : Piece → Prop
  | plain c => 0x20 ≤ c.toNat ∧ c ≠ '"' ∧ c ≠ '\\'
  | short c => (shortEscape? c).isSome
  | unit a b c d => (hexValue? a).isSome ∧ (hexValue? b).isSome ∧ (hexValue? c).isSome ∧
      (hexValue? d).isSome

instance : DecidablePred IsJson
  | plain _ => inferInstanceAs (Decidable (_ ∧ _ ∧ _))
  | short _ => inferInstanceAs (Decidable (_ = true))
  | unit _ _ _ _ => inferInstanceAs (Decidable (_ ∧ _ ∧ _ ∧ _))

end Piece

/-- The number that four hexadecimal digits write. -/
def unitValue (a b c d : Char) : Nat :=
  let digit (c : Char) : Nat := (hexValue? c).getD 0
  ((digit a * 16 + digit b) * 16 + digit c) * 16 + digit d

/-- The characters that pieces write. A high surrogate and a low one after it write one
    character; apart from each other they write none. -/
def characters? : List Piece → Option (List Char)
  | [] => some []
  | .plain c :: ps => (characters? ps).map (c :: ·)
  | .short c :: ps => (shortEscape? c).bind fun c => (characters? ps).map (c :: ·)
  | .unit a b c d :: ps =>
    let n := unitValue a b c d
    if 0xD800 ≤ n ∧ n ≤ 0xDBFF then
      match ps with
      | .unit a' b' c' d' :: ps' =>
        let low := unitValue a' b' c' d'
        if 0xDC00 ≤ low ∧ low ≤ 0xDFFF then
          (characters? ps').map (.ofNat (0x10000 + (n - 0xD800) * 0x400 + (low - 0xDC00)) :: ·)
        else none
      | _ => none
    else if 0xDC00 ≤ n ∧ n ≤ 0xDFFF then none
    else (characters? ps).map (.ofNat n :: ·)

theorem characters?_unit {a b c d : Char}
    (h : ¬(0xD800 ≤ unitValue a b c d ∧ unitValue a b c d ≤ 0xDBFF)) (ps : List Piece) :
    characters? (.unit a b c d :: ps) =
      if 0xDC00 ≤ unitValue a b c d ∧ unitValue a b c d ≤ 0xDFFF then none
      else (characters? ps).map (.ofNat (unitValue a b c d) :: ·) := by
  rw [characters?.eq_def]
  exact if_neg h

/-- The result of a reader without the measure. -/
def Front.seen {n : Nat} {α : Type} : Front n α → Except Break (α × List Char)
  | .error b => .error b
  | .ok (a, ⟨rest, _⟩) => .ok (a, rest)

@[simp] theorem Front.seen_lengthen {m n : Nat} {α : Type} (h : m ≤ n) (r : Front m α) :
    (r.lengthen h).seen = r.seen := by
  obtain b | ⟨a, rest, lt⟩ := r <;> rfl

theorem Front.seen_eq_ok {n : Nat} {α : Type} {r : Front n α} {a : α} {rest : List Char} :
    r.seen = .ok (a, rest) ↔ ∃ lt, r = .ok (a, ⟨rest, lt⟩) := by
  obtain b | ⟨a', rest', lt'⟩ := r <;> simp [seen]
  grind

theorem Front.seen_eq_error {n : Nat} {α : Type} {r : Front n α} {b : Break} :
    r.seen = .error b ↔ r = .error b := by
  obtain b | ⟨a', rest', lt'⟩ := r <;> simp [seen]

theorem seen_readHex4 {a b c d : Char} (h : (Piece.unit a b c d).IsJson) (rest : List Char) :
    (readHex4 (a :: b :: c :: d :: rest)).seen = .ok (unitValue a b c d, rest) := by
  obtain ⟨ha, hb, hc, hd⟩ := h
  obtain ⟨a', ha⟩ := Option.isSome_iff_exists.1 ha
  obtain ⟨b', hb⟩ := Option.isSome_iff_exists.1 hb
  obtain ⟨c', hc⟩ := Option.isSome_iff_exists.1 hc
  obtain ⟨d', hd⟩ := Option.isSome_iff_exists.1 hd
  simp only [readHex4, unitValue, ha, hb, hc, hd, Option.getD_some, Front.seen]

theorem seen_readLowSurrogate {a b c d : Char} (h : (Piece.unit a b c d).IsJson)
    (rest : List Char) :
    (readLowSurrogate ((Piece.unit a b c d).text ++ rest)).seen =
      if 0xDC00 ≤ unitValue a b c d ∧ unitValue a b c d ≤ 0xDFFF then
        .ok (unitValue a b c d - 0xDC00, rest)
      else .error .malformed := by
  obtain ⟨lt, hhex⟩ := Front.seen_eq_ok.1 (seen_readHex4 h rest)
  simp only [Piece.text, List.cons_append, List.nil_append, readLowSurrogate, hhex,
    Front.lengthen]
  split <;> rfl

/-- A backslash is followed by one of the short escapes, which `u` is none of. -/
theorem seen_readEscape_short {c c' : Char} (h : shortEscape? c = some c') (cs : List Char) :
    (readEscape (c :: cs)).seen = .ok (c', cs) := by
  unfold shortEscape? at h
  split at h <;> cases h <;> rfl

theorem seen_readEscape_unit {a b c d : Char} (h : (Piece.unit a b c d).IsJson) (cs : List Char) :
    (readEscape ('u' :: a :: b :: c :: d :: cs)).seen =
      if 0xD800 ≤ unitValue a b c d ∧ unitValue a b c d ≤ 0xDBFF then
        (readLowSurrogate cs).seen.map fun low =>
          (.ofNat (0x10000 + (unitValue a b c d - 0xD800) * 0x400 + low.1), low.2)
      else if 0xDC00 ≤ unitValue a b c d ∧ unitValue a b c d ≤ 0xDFFF then .error .malformed
      else .ok (.ofNat (unitValue a b c d), cs) := by
  obtain ⟨lt, hhex⟩ := Front.seen_eq_ok.1 (seen_readHex4 h cs)
  simp only [readEscape, Front.seen_lengthen, readUnicode, hhex]
  split
  · rcases readLowSurrogate cs with b | ⟨low, rest, lt'⟩ <;> rfl
  · split <;> rfl

theorem seen_readChars_escape_ok {cs rest : List Char} {c : Char}
    (h : (readEscape cs).seen = .ok (c, rest)) :
    (readChars ('\\' :: cs)).seen = (readChars rest).seen.map fun s => (c :: s.1, s.2) := by
  obtain ⟨lt, h⟩ := Front.seen_eq_ok.1 h
  rw [readChars, h]
  dsimp only
  rcases readChars rest with b | ⟨s, rest', lt'⟩ <;> rfl

theorem seen_readChars_escape_error {cs : List Char} {b : Break}
    (h : (readEscape cs).seen = .error b) : (readChars ('\\' :: cs)).seen = .error b := by
  rw [readChars, Front.seen_eq_error.1 h]
  rfl

theorem seen_readChars_plain {c : Char} (h : (Piece.plain c).IsJson) (cs : List Char) :
    (readChars ((Piece.plain c).text ++ cs)).seen =
      (readChars cs).seen.map fun s => (c :: s.1, s.2) := by
  obtain ⟨hc, hquote, hbackslash⟩ := h
  show (readChars (c :: cs)).seen = _
  rw [readChars]
  · rw [if_neg (Nat.not_lt.2 hc)]
    rcases readChars cs with b | ⟨s, rest', lt'⟩ <;> rfl
  · exact hquote
  · exact hbackslash

theorem seen_readChars_short {c c' : Char} (h : shortEscape? c = some c') (cs : List Char) :
    (readChars ((Piece.short c).text ++ cs)).seen =
      (readChars cs).seen.map fun s => (c' :: s.1, s.2) :=
  seen_readChars_escape_ok (seen_readEscape_short h cs)

section Units

variable {a b c d : Char} (h : (Piece.unit a b c d).IsJson)

include h

theorem seen_readChars_pair (hhigh : 0xD800 ≤ unitValue a b c d ∧ unitValue a b c d ≤ 0xDBFF)
    {cs rest : List Char} {low : Nat} (hlow : (readLowSurrogate cs).seen = .ok (low, rest)) :
    (readChars ((Piece.unit a b c d).text ++ cs)).seen = (readChars rest).seen.map fun s =>
      (.ofNat (0x10000 + (unitValue a b c d - 0xD800) * 0x400 + low) :: s.1, s.2) := by
  have hescape := seen_readEscape_unit h cs
  rw [if_pos hhigh, hlow] at hescape
  exact seen_readChars_escape_ok hescape

theorem seen_readChars_unpaired (hhigh : 0xD800 ≤ unitValue a b c d ∧ unitValue a b c d ≤ 0xDBFF)
    {cs : List Char} {e : Break} (hlow : (readLowSurrogate cs).seen = .error e) :
    (readChars ((Piece.unit a b c d).text ++ cs)).seen = .error e := by
  have hescape := seen_readEscape_unit h cs
  rw [if_pos hhigh, hlow] at hescape
  exact seen_readChars_escape_error hescape

theorem seen_readChars_unit (hhigh : ¬(0xD800 ≤ unitValue a b c d ∧ unitValue a b c d ≤ 0xDBFF))
    (cs : List Char) : (readChars ((Piece.unit a b c d).text ++ cs)).seen =
      if 0xDC00 ≤ unitValue a b c d ∧ unitValue a b c d ≤ 0xDFFF then .error .malformed
      else (readChars cs).seen.map fun s => (.ofNat (unitValue a b c d) :: s.1, s.2) := by
  have hescape := seen_readEscape_unit h cs
  rw [if_neg hhigh] at hescape
  split
  · next hlow =>
    rw [if_pos hlow] at hescape
    exact seen_readChars_escape_error hescape
  · next hlow =>
    rw [if_neg hlow] at hescape
    exact seen_readChars_escape_ok hescape

end Units

/-- What follows a high surrogate that no unit follows. -/
theorem seen_readLowSurrogate_of_lone {ps : List Piece} (hps : ∀ p ∈ ps, p.IsJson)
    (hlone : ∀ a b c d ps', ps = .unit a b c d :: ps' → False) (rest : List Char) :
    ∃ b, (readLowSurrogate (ps.flatMap Piece.text ++ '"' :: rest)).seen = .error b := by
  cases ps with
  | nil => exact ⟨.malformed, rfl⟩
  | cons p ps =>
    cases p with
    | plain c =>
      have hc := (hps _ (.head _)).2.2
      refine ⟨.malformed, ?_⟩
      simp [Piece.text, readLowSurrogate, hc, Front.seen]
    | short c =>
      refine ⟨.malformed, ?_⟩
      have hc : c ≠ 'u' := by
        rintro rfl
        exact absurd (hps _ (.head _)) (by simp [Piece.IsJson, shortEscape?])
      simp [Piece.text, readLowSurrogate, hc, Front.seen]
    | unit a b c d => exact (hlone a b c d ps rfl).elim

/-- Characters were read up to `rest`, or reading failed where there are none. -/
def Takes (r : Except Break (List Char × List Char)) (s? : Option (List Char))
    (rest : List Char) : Prop :=
  match s? with
  | some s => r = .ok (s, rest)
  | none => ∃ b, r = .error b

theorem Takes.cons {r : Except Break (List Char × List Char)} {s? : Option (List Char)}
    {rest : List Char} (h : Takes r s? rest) (c : Char) :
    Takes (r.map fun s => (c :: s.1, s.2)) (s?.map (c :: ·)) rest := by
  cases s? with
  | some s => rw [show r = _ from h]; rfl
  | none => obtain ⟨b, rfl⟩ := h; exact ⟨b, rfl⟩

theorem Takes.error (b : Break) (rest : List Char) : Takes (.error b) none rest := ⟨b, rfl⟩

/-- The reader takes pieces up to the closing quote for the characters that they write. -/
theorem takes_readChars {ps : List Piece} (hps : ∀ p ∈ ps, p.IsJson) (rest : List Char) :
    Takes (readChars (ps.flatMap Piece.text ++ '"' :: rest)).seen (characters? ps) rest := by
  have htail {p : Piece} {ps : List Piece} (hps : ∀ q ∈ p :: ps, q.IsJson) : ∀ q ∈ ps, q.IsJson :=
    fun q hq => hps q (.tail _ hq)
  induction ps using characters?.induct with
  | case1 =>
    show Takes (readChars ('"' :: rest)).seen _ rest
    rw [readChars]
    rfl
  | case2 c ps ih =>
    rw [List.flatMap_cons, List.append_assoc, seen_readChars_plain (hps _ (.head _)), characters?]
    exact (ih (htail hps)).cons c
  | case3 c ps ih =>
    obtain ⟨c', hc'⟩ := Option.isSome_iff_exists.1 (hps _ (.head _))
    rw [List.flatMap_cons, List.append_assoc, seen_readChars_short hc', characters?, hc']
    exact (ih (htail hps)).cons c'
  | case4 a b c d n hhigh a' b' c' d' ps low hlow ih => -- a high surrogate and a low one
    have hlow' := seen_readLowSurrogate (hps _ (.tail _ (.head _)))
      (ps.flatMap Piece.text ++ '"' :: rest)
    rw [if_pos hlow] at hlow'
    rw [List.flatMap_cons, List.flatMap_cons, List.append_assoc, List.append_assoc,
      seen_readChars_pair (hps _ (.head _)) hhigh hlow', characters?, if_pos hhigh, if_pos hlow]
    exact (ih (htail (htail hps))).cons _
  | case5 a b c d n hhigh a' b' c' d' ps low hlow => -- a high surrogate and another unit
    have hlow' := seen_readLowSurrogate (hps _ (.tail _ (.head _)))
      (ps.flatMap Piece.text ++ '"' :: rest)
    rw [if_neg hlow] at hlow'
    rw [List.flatMap_cons, List.flatMap_cons, List.append_assoc, List.append_assoc,
      seen_readChars_unpaired (hps _ (.head _)) hhigh hlow', characters?, if_pos hhigh, if_neg hlow]
    exact .error _ rest
  | case6 a b c d ps n hhigh hlone => -- a high surrogate and no unit
    obtain ⟨e, he⟩ := seen_readLowSurrogate_of_lone (htail hps) hlone rest
    rw [List.flatMap_cons, List.append_assoc, seen_readChars_unpaired (hps _ (.head _)) hhigh he,
      characters?, if_pos hhigh]
    · exact .error e rest
    · exact hlone
  | case7 a b c d ps n hhigh hlow => -- a low surrogate
    rw [List.flatMap_cons, List.append_assoc, seen_readChars_unit (hps _ (.head _)) hhigh,
      characters?_unit hhigh, if_pos hlow, if_pos hlow]
    exact .error _ rest
  | case8 a b c d ps n hhigh hlow ih => -- a character of its own
    rw [List.flatMap_cons, List.append_assoc, seen_readChars_unit (hps _ (.head _)) hhigh,
      characters?_unit hhigh, if_neg hlow, if_neg hlow]
    exact (ih (htail hps)).cons _

/-! ## Numbers -/

/-- The digits that characters write. -/
def digitsOf (ds : List Char) : List Nat := ds.map fun c => c.toNat - '0'.toNat

def AreDigits (ds : List Char) : Prop := ds ≠ [] ∧ ∀ c ∈ ds, c.isDigit = true

/-- No digit is at the front. -/
def NoDigit (cs : List Char) : Prop := ∀ c, cs.head? = some c → c.isDigit = false

/-- Nothing at the front that a number could go on with. -/
structure NumberEnds (cs : List Char) : Prop where
  noDigit : NoDigit cs
  noPoint : cs.head? ≠ some '.'
  noExponent : ∀ c, cs.head? = some c → ¬(c = 'e' ∨ c = 'E')

/-- Without leading zeros. -/
inductive WritesWhole : List Nat → List Char → Prop
  | zero : WritesWhole [0] ['0']
  | digits {c : Char} {ds : List Char} (h : AreDigits (c :: ds)) (hc : c ≠ '0') :
    WritesWhole (digitsOf (c :: ds)) (c :: ds)

inductive WritesFraction : Option (List Nat) → List Char → Prop
  | none : WritesFraction none []
  | digits {ds : List Char} (h : AreDigits ds) : WritesFraction (some (digitsOf ds)) ('.' :: ds)

inductive WritesExponent : Option Int → List Char → Prop
  | none : WritesExponent none []
  | plain {e : Char} {ds : List Char} (he : e = 'e' ∨ e = 'E') (h : AreDigits ds) :
    WritesExponent (some (digitsValue (digitsOf ds))) (e :: ds)
  | plus {e : Char} {ds : List Char} (he : e = 'e' ∨ e = 'E') (h : AreDigits ds) :
    WritesExponent (some (digitsValue (digitsOf ds))) (e :: '+' :: ds)
  | minus {e : Char} {ds : List Char} (he : e = 'e' ∨ e = 'E') (h : AreDigits ds) :
    WritesExponent (some (-(digitsValue (digitsOf ds) : Int))) (e :: '-' :: ds)

/-- A number as it is written, with its digits. -/
inductive Numeral.Writes : Numeral → List Char → Prop
  | mk {negative : Bool} {whole : List Nat} {fraction? : Option (List Nat)} {exponent? : Option Int}
      {cs₁ cs₂ cs₃ : List Char} (h₁ : WritesWhole whole cs₁) (h₂ : WritesFraction fraction? cs₂)
      (h₃ : WritesExponent exponent? cs₃) :
    Writes ⟨negative, whole, fraction?, exponent?⟩
      ((if negative then ['-'] else []) ++ cs₁ ++ cs₂ ++ cs₃)

variable {ds rest : List Char}

theorem readDigits_append (hds : ∀ c ∈ ds, c.isDigit = true) (hrest : NoDigit rest) :
    readDigits (ds ++ rest) = (digitsOf ds, rest) := by
  induction ds with
  | nil =>
    cases rest with
    | nil => rfl
    | cons c rest =>
      simp only [List.nil_append, readDigits, hrest c rfl, Bool.false_eq_true, if_false]
      rfl
  | cons c ds ih =>
    simp only [List.cons_append, readDigits, hds c (.head _), if_true,
      ih fun c hc => hds c (.tail _ hc)]
    rfl

theorem seen_readDigits1 (hds : AreDigits ds) (hrest : NoDigit rest) :
    (readDigits1 (ds ++ rest)).seen = .ok (digitsOf ds, rest) := by
  have hread := readDigits_append hds.2 hrest
  have hne : (readDigits (ds ++ rest)).1 ≠ [] := by
    rw [hread]
    simpa [digitsOf] using hds.1
  rw [readDigits1, dif_neg hne]
  simp only [Front.seen, hread]

theorem seen_readWhole {whole : List Nat} {cs : List Char} (h : WritesWhole whole cs)
    (hrest : NoDigit rest) : (readWhole (cs ++ rest)).seen = .ok (whole, rest) := by
  cases h with
  | zero =>
    have hzero : AreDigits ['0'] := ⟨nofun, by simp⟩
    obtain ⟨lt, hread⟩ := Front.seen_eq_ok.1 (seen_readDigits1 hzero hrest)
    rw [readWhole, hread]
    rfl
  | @digits c ds hds hc =>
    obtain ⟨lt, hread⟩ := Front.seen_eq_ok.1 (seen_readDigits1 hds hrest)
    have hne : c.toNat - '0'.toNat ≠ 0 := by
      intro hzero
      have hle := (Char.isDigit_iff_toNat.1 (hds.2 c (.head _))).1
      exact hc (Char.toNat_inj.1 (Nat.le_antisymm (Nat.sub_eq_zero_iff_le.1 hzero) hle))
    rw [readWhole, hread]
    split
    · next heq =>
      simp only [digitsOf, List.map_cons, Except.ok.injEq, Prod.mk.injEq, List.cons.injEq] at heq
      exact absurd heq.1.1 hne
    · rfl

theorem readFraction_append {fraction? : Option (List Nat)} {cs : List Char}
    (h : WritesFraction fraction? cs) (hdigit : NoDigit rest) (hpoint : rest.head? ≠ some '.') :
    ∃ le, readFraction (cs ++ rest) = .ok (fraction?, ⟨rest, le⟩) := by
  cases h with
  | none =>
    refine ⟨Nat.le_refl _, ?_⟩
    show readFraction rest = _
    unfold readFraction
    split
    · exact absurd rfl hpoint
    · rfl
  | @digits ds hds =>
    obtain ⟨lt, hread⟩ := Front.seen_eq_ok.1 (seen_readDigits1 hds hdigit)
    refine ⟨Nat.le_succ_of_le (Nat.le_of_lt lt), ?_⟩
    simp only [List.cons_append, readFraction, hread]

theorem AreDigits.head?_ne {ds : List Char} (h : AreDigits ds) (rest : List Char) {d : Char}
    (hd : d.isDigit = false) : (ds ++ rest).head? ≠ some d := by
  obtain _ | ⟨c, ds⟩ := ds
  · exact absurd rfl h.1
  · rintro heq
    cases heq
    rw [h.2 _ (.head _)] at hd
    cases hd

theorem readSign_of_ne {cs : List Char} (h : cs.head? ≠ some '-') :
    readSign cs = (false, ⟨cs, Nat.le_refl _⟩) := by
  unfold readSign
  split
  · exact absurd rfl h
  · rfl

theorem readExponentSign_of_ne {cs : List Char} (hminus : cs.head? ≠ some '-')
    (hplus : cs.head? ≠ some '+') : readExponentSign cs = (false, ⟨cs, Nat.le_refl _⟩) := by
  unfold readExponentSign
  split
  · exact absurd rfl hplus
  · exact readSign_of_ne hminus

theorem readExponent_of_sign {e : Char} {cs : List Char} {negative : Bool} {le}
    (he : e = 'e' ∨ e = 'E') (hsign : readExponentSign cs = (negative, ⟨ds ++ rest, le⟩))
    (hds : AreDigits ds) (hdigit : NoDigit rest) :
    ∃ le, readExponent (e :: cs) =
      .ok (some (if negative then -(digitsValue (digitsOf ds) : Int)
        else digitsValue (digitsOf ds)), ⟨rest, le⟩) := by
  obtain ⟨lt, hread⟩ := Front.seen_eq_ok.1 (seen_readDigits1 hds hdigit)
  refine ⟨Nat.le_succ_of_le (Nat.le_trans (Nat.le_of_lt lt) le), ?_⟩
  rw [readExponent, if_pos he]
  split
  next negative' cs' le' heq =>
    cases heq.symm.trans hsign
    rw [hread]

theorem readExponent_append {exponent? : Option Int} {cs : List Char}
    (h : WritesExponent exponent? cs) (hrest : NumberEnds rest) :
    ∃ le, readExponent (cs ++ rest) = .ok (exponent?, ⟨rest, le⟩) := by
  cases h with
  | none =>
    refine ⟨Nat.le_refl _, ?_⟩
    show readExponent rest = _
    unfold readExponent
    split
    · rfl
    · next c cs => rw [if_neg (hrest.noExponent c rfl)]
  | plain he hds =>
    exact readExponent_of_sign he
      (readExponentSign_of_ne (hds.head?_ne rest rfl) (hds.head?_ne rest rfl)) hds hrest.noDigit
  | @plus e ds he hds =>
    have hsign : readExponentSign ('+' :: (ds ++ rest)) =
      (false, ⟨ds ++ rest, Nat.le_succ _⟩) := rfl
    exact readExponent_of_sign he hsign hds hrest.noDigit
  | @minus e ds he hds =>
    have hsign : readExponentSign ('-' :: (ds ++ rest)) =
      (true, ⟨ds ++ rest, Nat.le_succ _⟩) := rfl
    exact readExponent_of_sign he hsign hds hrest.noDigit

/-- An exponent begins with no digit and no point, and a fraction with no digit. -/
theorem WritesExponent.head? {exponent? : Option Int} {cs : List Char}
    (h : WritesExponent exponent? cs) (hrest : NumberEnds rest) :
    NoDigit (cs ++ rest) ∧ (cs ++ rest).head? ≠ some '.' := by
  have hletter {e : Char} (he : e = 'e' ∨ e = 'E') (cs : List Char) :
      NoDigit (e :: cs) ∧ (e :: cs).head? ≠ some '.' := by
    refine ⟨fun c hc => ?_, fun hc => ?_⟩ <;> cases hc
    · rcases he with rfl | rfl <;> rfl
    · simp at he
  cases h with
  | none => exact ⟨hrest.noDigit, hrest.noPoint⟩
  | plain he => exact hletter he _
  | plus he => exact hletter he _
  | minus he => exact hletter he _

theorem WritesFraction.noDigit {fraction? : Option (List Nat)} {cs : List Char}
    (h : WritesFraction fraction? cs) (hrest : NoDigit rest) : NoDigit (cs ++ rest) := by
  cases h with
  | none => exact hrest
  | digits => intro c hc; cases hc; rfl

theorem WritesWhole.head?_ne {whole : List Nat} {cs : List Char} (h : WritesWhole whole cs)
    (rest : List Char) : (cs ++ rest).head? ≠ some '-' := by
  cases h with
  | zero => nofun
  | digits hds => exact hds.head?_ne rest rfl

theorem readSign_append (negative : Bool) {cs : List Char} (h : cs.head? ≠ some '-') :
    ∃ le, readSign ((if negative then ['-'] else []) ++ cs) = (negative, ⟨cs, le⟩) := by
  cases negative with
  | true => exact ⟨Nat.le_succ _, rfl⟩
  | false => exact ⟨Nat.le_refl _, readSign_of_ne h⟩

theorem seen_readNumeral {n : Numeral} {cs : List Char} (h : n.Writes cs)
    (hrest : NumberEnds rest) : (readNumeral (cs ++ rest)).seen = .ok (n, rest) := by
  obtain @⟨negative, whole, fraction?, exponent?, cs₁, cs₂, cs₃, h₁, h₂, h₃⟩ := h
  obtain ⟨hdigit, hpoint⟩ := h₃.head? hrest
  obtain ⟨le₀, hsign⟩ := readSign_append negative (h₁.head?_ne (cs₂ ++ (cs₃ ++ rest)))
  obtain ⟨lt₁, hwhole⟩ := Front.seen_eq_ok.1 (seen_readWhole h₁ (h₂.noDigit hdigit))
  obtain ⟨le₂, hfraction⟩ := readFraction_append h₂ hdigit hpoint
  obtain ⟨le₃, hexponent⟩ := readExponent_append h₃ hrest
  have htext (sign : List Char) :
      sign ++ cs₁ ++ cs₂ ++ cs₃ ++ rest = sign ++ (cs₁ ++ (cs₂ ++ (cs₃ ++ rest))) := by simp
  rw [htext, readNumeral]
  split
  next negative' cs' le' heq =>
    cases heq.symm.trans hsign
    rw [hwhole]
    dsimp only
    rw [hfraction]
    dsimp only
    rw [hexponent]
    rfl

/-- A number is read for its value, and refused if it has none. -/
theorem seen_readNumber {n : Numeral} {cs : List Char} (h : n.Writes cs)
    (hrest : NumberEnds rest) : (readNumber (cs ++ rest)).seen =
      match n.value? with
      | some s => .ok (s, rest)
      | none => .error .malformed := by
  obtain ⟨lt, hread⟩ := Front.seen_eq_ok.1 (seen_readNumeral h hrest)
  rw [readNumber, hread]
  dsimp only
  cases n.value? <;> rfl

end Json

end QualifiedInference
