import Mathlib.Data.List.Basic
import Excerpt.Proofs.Record.Grouping

/-!
This module contains the division of lines among several readers that come one after the other. Each of them takes
records up to the first one that cannot be split, and the next one begins with the line that follows. The shares are
all of the lines that have been read, in their order.
-/

namespace Excerpt
namespace Record

/--
What one reader takes: the lines of one record after the other, and the lines of the record that it gives up, if there
is an error.
-/
@[ext]
structure Share where
  records : List (List Text) := []
  abandoned : List Text := []
  error : Option RecordError := none
  deriving DecidableEq, Repr

def Share.lines (share : Share) : List Text := share.records.flatten ++ share.abandoned

inductive Shared (delimiter : Text) : List Text → List Share → List Text → Prop
  | nil {left : List Text} : Shared delimiter left [] left
  | cons {lines more left : List Text} {share : Share} {shares : List Share}
    (h : Grouping delimiter lines share.records share.abandoned more share.error)
    (hmore : Shared delimiter more shares left)
    : Shared delimiter lines (share :: shares) left

namespace Shared

variable {delimiter : Text} {lines left left' : List Text} {share : Share} {shares shares' : List Share}

theorem exists_of_length (delimiter : Text) (lines : List Text) (n : Nat) :
    ∃ shares left, Shared delimiter lines shares left ∧ shares.length = n := by
  induction n generalizing lines with
  | zero => exact ⟨[], lines, .nil, rfl⟩
  | succ n ih =>
    obtain ⟨records, abandoned, more, error, h⟩ := grouping_exists delimiter lines
    obtain ⟨shares, left, hmore, hlength⟩ := ih more
    exact ⟨⟨records, abandoned, error⟩ :: shares, left, .cons h hmore, by rw [List.length_cons, hlength]⟩

theorem lines_eq (h : Shared delimiter lines shares left) : lines = shares.flatMap Share.lines ++ left := by
  induction h with
  | nil => rfl
  | cons h _ ih => rw [h.lines_eq, ih, List.flatMap_cons, Share.lines, ← List.append_assoc]

theorem unique (h : Shared delimiter lines shares left) (h' : Shared delimiter lines shares' left')
    (hlength : shares.length = shares'.length) : shares = shares' ∧ left = left' := by
  induction h generalizing shares' with
  | nil =>
    cases h' with
    | nil => exact ⟨rfl, rfl⟩
    | cons => cases hlength
  | @cons lines more left share shares hgrouping _ ih =>
    cases h' with
    | nil => cases hlength
    | @cons _ more' _ share' shares' hgrouping' hmore' =>
      obtain ⟨hrecords, habandoned, rfl, herror⟩ := hgrouping.unique hgrouping'
      obtain ⟨rfl, rfl⟩ := ih hmore' (Nat.succ.inj hlength)
      obtain rfl : share = share' := Share.ext hrecords habandoned herror
      exact ⟨rfl, rfl⟩

end Shared
end Record
end Excerpt
