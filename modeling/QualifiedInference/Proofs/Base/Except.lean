-- SUMMARY: When a computation made of steps that may fail succeeds, and what its success says of each step.
import Mathlib.Data.List.Forall2
/-!
# Computations that may fail

A sequence of steps succeeds just if every step does. A fold over a list keeps what each step keeps
(`foldlM_induction`), and where each item is checked against those before it, it succeeds just if
all of them pass (`foldlM_checks`).
-/

namespace Except

variable {ε ε' α β : Type}

theorem bind_eq_ok_iff {x : Except ε α} {f : α → Except ε β} {b : β} :
    (x >>= f) = .ok b ↔ ∃ a, x = .ok a ∧ f a = .ok b := by
  cases x <;> simp [Bind.bind, Except.bind]

theorem mapError_eq_ok_iff {x : Except ε α} {f : ε → ε'} {a : α} :
    x.mapError f = .ok a ↔ x = .ok a := by
  cases x <;> simp [Except.mapError]

theorem map_some_eq_ok_iff {x : Except ε α} {a? : Option α} :
    some <$> x = .ok a? ↔ ∃ a, a? = some a ∧ x = .ok a := by
  cases x <;> cases a? <;> simp

theorem mapM_eq_ok_iff {f : β → Except ε α} {bs : List β} {as : List α} :
    bs.mapM f = .ok as ↔ List.Forall₂ (fun a b => f b = .ok a) as bs := by
  induction bs generalizing as with
  | nil => cases as <;> simp [Pure.pure, Except.pure]
  | cons b bs ih =>
    simp only [List.mapM_cons, bind_eq_ok_iff, ih]
    constructor
    · rintro ⟨a, ha, as, has, hcons⟩
      cases hcons
      exact .cons ha has
    · rintro (_ | ⟨ha, has⟩)
      exact ⟨_, ha, _, has, rfl⟩

/-! ## Folds -/

theorem foldlM_induction {f : β → α → Except ε β} {P : β → Prop}
    (hf : ∀ {acc x acc'}, P acc → f acc x = .ok acc' → P acc') {l : List α} {acc out : β}
    (hacc : P acc) (h : l.foldlM f acc = .ok out) : P out := by
  induction l generalizing acc with
  | nil => cases h; exact hacc
  | cons x l ih =>
    obtain ⟨acc', hacc', h⟩ := bind_eq_ok_iff.1 h
    exact ih (hf hacc hacc') h

/-- Steps that succeed as long as `P` holds, and keep it, succeed all the way. -/
theorem foldlM_eq_foldl {f : β → α → Except ε β} {g : β → α → β} {P : β → Prop} {l : List α}
    {acc : β} (hacc : P acc)
    (h : ∀ acc, ∀ x ∈ l, P acc → f acc x = .ok (g acc x) ∧ P (g acc x)) :
    l.foldlM f acc = .ok (l.foldl g acc) := by
  induction l generalizing acc with
  | nil => rfl
  | cons x l ih =>
    obtain ⟨hstep, hnext⟩ := h acc x (.head _) hacc
    rw [List.foldlM_cons, hstep]
    exact ih hnext fun acc y hy => h acc y (.tail _ hy)

/-- Items are taken in turn, each if `C` holds of it and those taken before; `I` relates these to
    the state. So all are taken just if each may be taken after those before it. -/
theorem foldlM_checks {f : β → α → Except ε β} {I : List α → β → Prop} {C : List α → α → Prop}
    (hcheck : ∀ done b x, I done b → ((∃ b', f b x = .ok b') ↔ C done x))
    (hstep : ∀ done b x b', I done b → f b x = .ok b' → I (done ++ [x]) b')
    {d : List α} {b : β} (hb : I d b) (l : List α) :
    ((∃ out, l.foldlM f b = .ok out) ↔
      ∀ before x after, l = before ++ x :: after → C (d ++ before) x) ∧
    ∀ out, l.foldlM f b = .ok out → I (d ++ l) out := by
  induction l generalizing d b with
  | nil =>
    refine ⟨⟨fun _ before x after h => by simp at h, fun _ => ⟨b, rfl⟩⟩, ?_⟩
    rintro out h
    cases h
    simpa using hb
  | cons y l ih =>
    simp only [List.foldlM_cons, bind_eq_ok_iff]
    constructor
    · constructor
      · rintro ⟨out, b', hb', hout⟩ before x after h
        cases before with
        | nil =>
          obtain ⟨rfl, -⟩ := List.cons.inj h
          simpa using (hcheck d b y hb).1 ⟨b', hb'⟩
        | cons z before =>
          obtain ⟨rfl, hl⟩ := List.cons.inj h
          simpa using (ih (hstep d b y b' hb hb')).1.1 ⟨out, hout⟩ before x after hl
      · intro h
        obtain ⟨b', hb'⟩ := (hcheck d b y hb).2 (by simpa using h [] y l rfl)
        obtain ⟨out, hout⟩ := (ih (hstep d b y b' hb hb')).1.2 fun before x after hl => by
          simpa using h (y :: before) x after (congrArg (y :: ·) hl)
        exact ⟨out, b', hb', hout⟩
    · rintro out ⟨b', hb', hout⟩
      simpa using (ih (hstep d b y b' hb hb')).2 out hout

end Except
