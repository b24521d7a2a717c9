import Mathlib.Data.List.Intervals
import Excerpt.Proofs.Selection.Select

/-!
This module contains what clipping a selection to a length leaves of it. However far its spans reach, the positions
that it yields are those of a plain listing of all spans, less the ones past the end; so there are never more of them
than the length for each span, and every one of them is a position of the list that is selected from.
-/

namespace Excerpt

namespace Span

variable {span : Span} {length i : Nat}

theorem indices_eq_filter (span : Span) (length : Nat) :
    span.indices length = (List.Ico span.start span.stop).filter (· < length) := by
  rw [List.Ico.filter_lt]
  rfl

theorem count_indices (h : i < length) :
    (span.indices length).count i = if span.start ≤ i ∧ i < span.stop then 1 else 0 := by
  have hnodup : (span.indices length).Nodup := List.nodup_range'
  rw [hnodup.count]
  simp only [mem_indices, h, and_true]

theorem length_indices_le : (span.indices length).length ≤ length := by
  rw [indices, List.length_range']
  omega

end Span

namespace Selection

def listing (selection : Selection) : List Nat := selection.flatMap fun span => List.Ico span.start span.stop

variable {selection : Selection} {length i : Nat}

theorem indices_cons {span : Span} :
    indices (span :: selection) length = span.indices length ++ selection.indices length := rfl

theorem indices_eq_filter (selection : Selection) (length : Nat) :
    selection.indices length = selection.listing.filter (· < length) := by
  simp only [indices, listing, List.filter_flatMap, Span.indices_eq_filter]

theorem lt_of_mem_indices (h : i ∈ selection.indices length) : i < length := by
  rw [indices_eq_filter, List.mem_filter] at h
  exact of_decide_eq_true h.2

theorem count_indices (h : i < length) :
    (selection.indices length).count i = selection.countP fun span => span.start ≤ i ∧ i < span.stop := by
  induction selection with
  | nil => rfl
  | cons span selection ih =>
    rw [indices_cons, List.count_append, Span.count_indices h, ih, List.countP_cons, Nat.add_comm]
    simp only [decide_eq_true_eq]

theorem length_indices_le (selection : Selection) (length : Nat) :
    (selection.indices length).length ≤ selection.length * length := by
  induction selection with
  | nil => exact Nat.zero_le _
  | cons span selection ih =>
    have hspan : (span.indices length).length ≤ length := Span.length_indices_le
    rw [indices_cons, List.length_append, List.length_cons, Nat.succ_mul]
    omega

theorem indices_listing_and_select (P Q : Selection) (length : Nat) :
    P.indices length = P.listing.filter (· < length)
      ∧ (∀ i ∈ P.indices length, i < length)
      ∧ (∀ (α : Type) (xs : List α), (P.select xs).map some = (P.indices xs.length).map fun i => xs[i]?)
      ∧ (∀ data : Bytes, ∃ selected : Bytes, selected.map some = ((P.indices data.length).map fun i => data[i]?)
          ∧ selectBytes P data = Utf8.decode selected)
      ∧ (∀ i < length, (P.indices length).count i = P.countP fun span => span.start ≤ i ∧ i < span.stop)
      ∧ (P.indices length).length ≤ P.length * length
      ∧ ∀ (α : Type) (xs : List α), (P ++ Q).select xs = P.select xs ++ Q.select xs := by
  refine ⟨indices_eq_filter P length, ?_, ?_, ?_, ?_, length_indices_le P length, ?_⟩
  . intro i hi
    exact lt_of_mem_indices hi
  . intro α xs
    exact map_some_select P xs
  . intro data
    exact ⟨P.select data, map_some_select P data, rfl⟩
  . intro i hi
    exact count_indices hi
  . intro α xs
    exact select_append

/-- A span that reaches far past the end, three that give nothing, and one that repeats a position. -/
example : indices [⟨1, 10 ^ 100⟩, ⟨2, 2⟩, ⟨5, 3⟩, ⟨7, 9⟩, ⟨0, 2⟩] 3 = [1, 2, 0, 1] := by decide

end Selection

end Excerpt
