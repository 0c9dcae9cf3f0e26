/-!
# Positions and spans of a document

* `Position` : a line and a column, both from zero, ordered by line and then by column;
* `Span` : from a position up to, and not including, another; `Span.contains`.

Reports of other tools may lie outside the document, so both numbers are integers.
-/

namespace TidyUse

structure Position where
  line : Int
  column : Int
deriving DecidableEq

namespace Position

instance : LE Position where
  le p q := p.line < q.line ∨ p.line = q.line ∧ p.column ≤ q.column

instance : LT Position where
  lt p q := p.line < q.line ∨ p.line = q.line ∧ p.column < q.column

theorem le_def {p q : Position} :
    p ≤ q ↔ p.line < q.line ∨ p.line = q.line ∧ p.column ≤ q.column := Iff.rfl

theorem lt_def {p q : Position} :
    p < q ↔ p.line < q.line ∨ p.line = q.line ∧ p.column < q.column := Iff.rfl

instance (p q : Position) : Decidable (p ≤ q) := decidable_of_iff _ le_def.symm

instance (p q : Position) : Decidable (p < q) := decidable_of_iff _ lt_def.symm

/-- The earlier of two positions. -/
instance : Min Position where
  min p q := if p ≤ q then p else q

/-- The later of two positions. -/
instance : Max Position where
  max p q := if p ≤ q then q else p

theorem le_refl (p : Position) : p ≤ p := by simp [le_def]

theorem le_trans {p q r : Position} (h : p ≤ q) (h' : q ≤ r) : p ≤ r := by
  simp only [le_def] at *; omega

end Position

/-- A stretch of a document: `start` belongs to it, `stop` does not. -/
structure Span where
  start : Position
  stop : Position
deriving DecidableEq

namespace Span

/-- The outer span holds the whole of the inner one. -/
def contains (outer inner : Span) : Bool :=
  decide (outer.start ≤ inner.start) && decide (inner.stop ≤ outer.stop)

/-- The least span that holds both. -/
def union (s t : Span) : Span := ⟨min s.start t.start, max s.stop t.stop⟩

end Span

end TidyUse
