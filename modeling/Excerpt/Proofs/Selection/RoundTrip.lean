import Excerpt.Proofs.Selection.Decimal

/-!
This module contains the writer of selections, and that what it writes is read back: the same spans in the same order,
whatever zeros stand in front of the numbers.
-/

namespace Excerpt

structure PaddedSpan where
  span : Span
  firstZeros : Nat
  secondZeros : Nat
  deriving DecidableEq, Repr

/--
The token for a span: the number of its only position, or those of its first and its last one around a dash.
-/
def PaddedSpan.write (p : PaddedSpan) : Text :=
  let first := Text.padded p.firstZeros (p.span.start + 1)
  if p.span.stop = p.span.start + 1 then first else first ++ '-' :: Text.padded p.secondZeros p.span.stop

def Selection.write (spans : List PaddedSpan) : Text := [','].intercalate (spans.map PaddedSpan.write)

section

variable {p : PaddedSpan} {spans : List PaddedSpan}

theorem PaddedSpan.written_write (hlt : p.span.start < p.span.stop) (hbound : p.span.stop < 10 ^ 4300) :
    Span.Written p.write p.span := by
  obtain ⟨⟨start, stop⟩, zeros, zeros'⟩ := p
  have hfirst : Numeral (Text.padded zeros (start + 1)) :=
    numeral_padded (Nat.succ_pos start) (Nat.lt_of_le_of_lt hlt hbound)
  unfold write
  dsimp only
  split
  . next hstop =>
    subst hstop
    have h := Span.Written.number hfirst
    rw [decimalValue_padded, Nat.add_sub_cancel] at h
    exact h
  . next hstop =>
    have hsecond : Numeral (Text.padded zeros' stop) := numeral_padded (Nat.zero_lt_of_lt hlt) hbound
    have hvalues : decimalValue (Text.padded zeros (start + 1)) < decimalValue (Text.padded zeros' stop) := by
      rw [decimalValue_padded, decimalValue_padded]
      exact Nat.lt_of_le_of_ne hlt (Ne.symm hstop)
    have h := Span.Written.range hfirst hsecond hvalues
    rw [decimalValue_padded, decimalValue_padded, Nat.add_sub_cancel] at h
    exact h

theorem Span.Written.comma_not_mem {token : Text} {span : Span} (h : Span.Written token span) : ',' ∉ token := by
  intro hmem
  rcases h.mem_token hmem with hdigit | hdash
  . revert hdigit
    decide
  . revert hdash
    decide

namespace Selection

theorem splitOn_write (hne : spans ≠ []) (h : ∀ p ∈ spans, Span.Written p.write p.span) :
    (write spans).splitOn ',' = spans.map PaddedSpan.write := by
  apply List.splitOn_intercalate
  . intro token htoken
    obtain ⟨p, hp, rfl⟩ := List.mem_map.mp htoken
    exact (h p hp).comma_not_mem
  . simpa using hne

theorem parse_write (hne : spans ≠ [])
    (h : ∀ p ∈ spans, p.span.start < p.span.stop ∧ p.span.stop < 10 ^ 4300) :
    parse (write spans) = .ok (spans.map PaddedSpan.span) := by
  have hwritten : ∀ p ∈ spans, Span.Written p.write p.span := by
    intro p hp
    exact PaddedSpan.written_write (h p hp).1 (h p hp).2
  rw [parse_eq_ok_iff, splitOn_write hne hwritten, List.forall₂_map_left_iff, List.forall₂_map_right_iff,
    List.forall₂_same]
  exact hwritten

theorem parse_write_zeros :
    let spans : List PaddedSpan := [⟨⟨4, 9⟩, 0, 5000⟩, ⟨⟨0, 1⟩, 2, 0⟩, ⟨⟨0, 10 ^ 20⟩, 4300, 1⟩, ⟨⟨0, 1⟩, 0, 7⟩]
    spans ≠ []
      ∧ (∀ p ∈ spans, p.span.start < p.span.stop ∧ p.span.stop < 10 ^ 4300)
      ∧ parse (write spans) = .ok [⟨4, 9⟩, ⟨0, 1⟩, ⟨0, 10 ^ 20⟩, ⟨0, 1⟩] := by
  intro spans
  have hne : spans ≠ [] := List.cons_ne_nil _ _
  have h : ∀ p ∈ spans, p.span.start < p.span.stop ∧ p.span.stop < 10 ^ 4300 := by
    have hsmall : ∀ p ∈ spans, p.span.start < p.span.stop ∧ p.span.stop < 10 ^ 21 := by decide
    have hpow {n : Nat} (hn : 21 ≤ n) : 10 ^ 21 ≤ 10 ^ n := Nat.pow_le_pow_right (by decide) hn
    intro p hp
    exact ⟨(hsmall p hp).1, Nat.lt_of_lt_of_le (hsmall p hp).2 (hpow (by decide))⟩
  exact ⟨hne, h, parse_write hne h⟩

end Selection

end

end Excerpt
