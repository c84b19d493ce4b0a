-- SUMMARY: Orders on qualifiers: tops, joins and meets.
import QualifiedInference.Qualifier
/-!
# Orders on qualifiers

What solving needs to know about the qualifiers of each hierarchy: its top, and joins
and meets where they exist. `chains` is the order in which every hierarchy is a chain
from its top downwards.
-/

namespace QualifiedInference

structure QualifierOrder where
  /-- The top of the hierarchy of a qualifier. -/
  top : Qualifier → Qualifier
  join? : Qualifier → Qualifier → Option Qualifier
  meet? : Qualifier → Qualifier → Option Qualifier

namespace QualifierOrder

/-- Qualifiers of one hierarchy are ordered by rank; those of two are unrelated. -/
def chains : QualifierOrder where
  top q := Qualifier.top q.hierarchy
  join? p q :=
    if p.hierarchy = q.hierarchy then some (if p.rank ≤ q.rank then p else q) else none
  meet? p q :=
    if p.hierarchy = q.hierarchy then some (if q.rank ≤ p.rank then p else q) else none

end QualifierOrder

end QualifiedInference
