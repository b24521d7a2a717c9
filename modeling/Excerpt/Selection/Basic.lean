import Excerpt.Text.Basic

/-!
This module contains spans of positions and what they select: from a length the positions themselves, from a list
the elements at these positions. Spans are never sorted or merged, so what is asked for twice is given twice.
-/

namespace Excerpt

/--
The positions from `start` up to but not including `stop`, counted from 0. A span with `stop ≤ start` is empty.
-/
structure Span where
  start : Nat
  stop : Nat
  deriving DecidableEq, Repr

def Span.indices (span : Span) (length : Nat) : List Nat :=
  List.range' span.start (min span.stop length - span.start)

@[simp]
theorem Span.mem_indices {span : Span} {length i : Nat} :
    i ∈ span.indices length ↔ span.start ≤ i ∧ i < span.stop ∧ i < length := by
  simp only [Span.indices, List.mem_range'_1]
  omega

abbrev Selection := List Span

namespace Selection

def indices (selection : Selection) (length : Nat) : List Nat :=
  selection.flatMap (Span.indices · length)

@[simp]
theorem indices_nil {length : Nat} : indices [] length = [] := rfl

@[simp]
theorem indices_append {P Q : Selection} {length : Nat} :
    indices (P ++ Q) length = indices P length ++ indices Q length := by
  simp [indices]

/--
The elements that the spans select, span by span. Positions past the end select nothing.
-/
def select {α : Type} (selection : Selection) (xs : List α) : List α :=
  selection.flatMap fun span => xs.extract span.start span.stop

@[simp]
theorem select_nil {α : Type} {xs : List α} : select [] xs = [] := rfl

@[simp]
theorem select_append {α : Type} {P Q : Selection} {xs : List α} :
    select (P ++ Q) xs = select P xs ++ select Q xs := by
  simp [select]

end Selection

end Excerpt
