-- SUMMARY: Qualified types: the null type, and named types with arguments.
import QualifiedInference.Qualifiers
/-!
# Types

A type is the type of `null` or a named type applied to arguments; either carries a set of
qualifiers. `overlay` replaces the qualifiers of a type hierarchy by hierarchy.
-/

namespace QualifiedInference

inductive Ty where
  | null (qualifiers : Qualifiers)
  | named (name : String) (args : List Ty) (qualifiers : Qualifiers)

namespace Ty

instance : Inhabited Ty := ⟨.null ∅⟩

mutual

def decEq : (a b : Ty) → Decidable (a = b)
  | .null s, .null t =>
    if h : s = t then isTrue (h ▸ rfl) else isFalse fun e => h (by injection e)
  | .null _, .named .. => isFalse fun e => by cases e
  | .named .., .null _ => isFalse fun e => by cases e
  | .named m as s, .named n bs t =>
    if h : m = n ∧ s = t then
      match decEqList as bs with
      | isTrue h' => isTrue (by rw [h.1, h.2, h'])
      | isFalse h' => isFalse fun e => h' (by injection e)
    else isFalse fun e => h (by injection e with h₁ _ h₂; exact ⟨h₁, h₂⟩)

def decEqList : (as bs : List Ty) → Decidable (as = bs)
  | [], [] => isTrue rfl
  | [], _ :: _ => isFalse fun e => by cases e
  | _ :: _, [] => isFalse fun e => by cases e
  | a :: as, b :: bs =>
    match decEq a b with
    | isFalse h => isFalse fun e => h (by injection e)
    | isTrue h =>
      match decEqList as bs with
      | isTrue h' => isTrue (by rw [h, h'])
      | isFalse h' => isFalse fun e => h' (by injection e)

end

instance : DecidableEq Ty := decEq

def isNull : Ty → Bool
  | .null _ => true
  | .named .. => false

def name? : Ty → Option String
  | .null _ => none
  | .named name _ _ => some name

def args : Ty → List Ty
  | .null _ => []
  | .named _ args _ => args

def qualifiers : Ty → Qualifiers
  | .null s => s
  | .named _ _ s => s

def withQualifiers : Ty → Qualifiers → Ty
  | .null _, s => .null s
  | .named name args _, s => .named name args s

/-- Applies a named type to arguments; the null type takes none. -/
def withArgs : Ty → List Ty → Ty
  | .null s, _ => .null s
  | .named name _ s, args => .named name args s

def overlay (ty : Ty) (s : Qualifiers) : Ty := ty.withQualifiers (ty.qualifiers.overlay s)

end Ty

end QualifiedInference
