import Excerpt.Text.Literal
import Excerpt.Utf8

/-!
This module contains the check that a delimiter can serve between fields. The record functions themselves accept
any text as a delimiter; a delimiter that passes here is one ASCII character that no quoting rule interferes with.
-/

namespace Excerpt

inductive DelimiterError
  | notSingleByte (delimiter : Text)
  | quoteOrLineBreak (delimiter : Text)
  deriving DecidableEq, Repr

def DelimiterError.message : DelimiterError → Text
  | .notSingleByte delimiter =>
    "--delimiter \"".toList ++ delimiter ++ "\" must be a single byte".toList
  | .quoteOrLineBreak delimiter =>
    "--delimiter ".toList ++ delimiter.literal ++ " cannot be a quote or line break".toList

def checkDelimiter (delimiter : Text) : Except DelimiterError Text :=
  if (Utf8.encode delimiter).length ≠ 1 then
    .error (.notSingleByte delimiter)
  else if delimiter ∈ [['"'], ['\n'], ['\r']] then
    .error (.quoteOrLineBreak delimiter)
  else
    .ok delimiter

theorem checkDelimiter_eq_ok {delimiter checked : Text} (h : checkDelimiter delimiter = .ok checked) :
    ∃ d, delimiter = [d] ∧ checked = [d] ∧ d ≠ '"' ∧ d ≠ '\n' ∧ d ≠ '\r' := by
  unfold checkDelimiter at h
  split at h
  . cases h
  . next hlength =>
    split at h
    . cases h
    . next hmem =>
      cases h
      simp only [Decidable.not_not] at hlength
      cases delimiter with
      | nil => simp at hlength
      | cons d rest =>
        cases rest with
        | nil => exact ⟨d, rfl, rfl, by simpa using hmem⟩
        | cons e rest =>
          have hd := d.utf8Size_pos
          have he := e.utf8Size_pos
          simp [Utf8.encode] at hlength
          omega

end Excerpt
