/-!
# Spans

The half-open range of source positions that an expression was read from.
-/

namespace ScriptOps

/-- A half-open range of positions. -/
structure Span where
  /-- The first position. -/
  start : Nat
  /-- The position after the last one. -/
  stop : Nat
deriving DecidableEq, Inhabited

namespace Span

/-- The span of an expression without a position. -/
def dummy : Span := ⟨0, 0⟩

/-- Whether the span gives no position. -/
def isDummy (s : Span) : Bool :=
  s == dummy

/-- The least span that covers both. -/
def merge (a b : Span) : Span :=
  ⟨min a.start b.start, max a.stop b.stop⟩

/-- The two ends with two points between them. -/
def text (s : Span) : String :=
  toString s.start ++ ".." ++ toString s.stop

/-- The span around two spans does not depend on their order. -/
theorem merge_comm (a b : Span) : a.merge b = b.merge a := by
  simp [merge, Nat.min_comm, Nat.max_comm]

/-- Spans may be merged in any grouping. -/
theorem merge_assoc (a b c : Span) : (a.merge b).merge c = a.merge (b.merge c) := by
  simp [merge, Nat.min_assoc, Nat.max_assoc]

end Span

end ScriptOps
