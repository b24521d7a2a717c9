import Excerpt.Proofs.Selection.Grammar

/-!
This module contains numbers as they are written: any number has decimal digits, and digits that count for something
are, less the zeros in front, the digits of the number that they stand for.
-/

namespace Excerpt

def Text.padded (zeros n : Nat) : Text := List.replicate zeros '0' ++ Text.ofNat n

section

variable {n zeros : Nat} {c : Char} {digits : Text}

theorem decimalValue_ofNat (n : Nat) : decimalValue (Text.ofNat n) = n := by
  rw [← ofDigitChars_eq_decimalValue]
  exact Nat.ofDigitChars_ten_toDigits

theorem decimalValue_padded (zeros n : Nat) : decimalValue (Text.padded zeros n) = n := by
  induction zeros with
  | zero => exact decimalValue_ofNat n
  | succ zeros ih => exact decimalValue_cons_zero.trans ih

theorem isDigits_ofNat (n : Nat) : IsDigits (Text.ofNat n) := by
  rw [← isNumeral_iff, isNumeral]
  have hdigit : ∀ c ∈ Text.ofNat n, c.isDigit = true := fun c hc =>
    Nat.isDigit_of_mem_toDigits (by decide) (by decide) hc
  simpa [Text.ofNat] using hdigit

theorem length_ofNat_le {k : Nat} (hk : 0 < k) (h : n < 10 ^ k) : (Text.ofNat n).length ≤ k :=
  (Nat.length_toDigits_le_iff (by decide) hk).mpr h

theorem isDigits_padded (zeros n : Nat) : IsDigits (Text.padded zeros n) := by
  have hnat := isDigits_ofNat n
  refine ⟨List.append_ne_nil_of_right_ne_nil _ hnat.1, ?_⟩
  intro c hc
  rcases List.mem_append.mp hc with hc | hc
  . rw [List.eq_of_mem_replicate hc]
    decide
  . exact hnat.2 c hc

theorem dropWhile_zero_padded (zeros n : Nat) :
    (Text.padded zeros n).dropWhile (· == '0') = (Text.ofNat n).dropWhile (· == '0') := by
  induction zeros with
  | zero => rfl
  | succ zeros ih => exact ih

theorem numeral_padded (hone : 1 ≤ n) (hlt : n < 10 ^ 4300) : Numeral (Text.padded zeros n) := by
  refine ⟨isDigits_padded zeros n, ?_, ?_⟩
  . rw [decimalValue_padded]
    exact hone
  . have hlength : (Text.ofNat n).length ≤ 4300 := length_ofNat_le (by decide) hlt
    rw [dropWhile_zero_padded]
    exact Nat.le_trans (List.dropWhile_sublist _).length_le hlength

theorem digitChar_toNat (h : '0' ≤ c ∧ c ≤ '9') : Nat.digitChar (c.toNat - '0'.toNat) = c := by
  have hlow : '0'.toNat ≤ c.toNat := h.1
  have hhigh : c.toNat ≤ '9'.toNat := h.2
  simp only [Char.reduceToNat] at hlow hhigh ⊢
  apply Char.toNat_inj.mp
  rw [Nat.toNat_digitChar_of_lt_ten (by omega)]
  omega

theorem ofNat_digit (h : '0' ≤ c ∧ c ≤ '9') : Text.ofNat (c.toNat - '0'.toNat) = [c] := by
  have hhigh : c.toNat ≤ '9'.toNat := h.2
  rw [Text.ofNat, Nat.toDigits_of_lt_base, digitChar_toNat h]
  simp only [Char.reduceToNat] at hhigh ⊢
  omega

theorem ofNat_append (hn : 0 < n) (h : ∀ c ∈ digits, '0' ≤ c ∧ c ≤ '9') :
    Text.ofNat n ++ digits = Text.ofNat (Nat.ofDigitChars 10 digits n) := by
  -- The digits go over to the number one by one, from the front.
  induction digits generalizing n with
  | nil => rw [List.append_nil, Nat.ofDigitChars_nil]
  | cons c digits ih =>
    obtain ⟨hc, hdigits⟩ := List.forall_mem_cons.mp h
    have hlt : c.toNat - '0'.toNat < 10 := by
      have hhigh : c.toNat ≤ '9'.toNat := hc.2
      simp only [Char.reduceToNat] at hhigh ⊢
      omega
    have hfirst : Text.ofNat n ++ [c] = Text.ofNat (10 * n + (c.toNat - '0'.toNat)) := by
      rw [← ofNat_digit hc]
      exact Nat.toDigits_append_toDigits (by decide) hn hlt
    rw [List.append_cons, hfirst, ih (by omega) hdigits, Nat.ofDigitChars_cons]

theorem ofNat_decimalValue (h : ∀ c ∈ digits, '0' ≤ c ∧ c ≤ '9') (hone : 1 ≤ decimalValue digits) :
    Text.ofNat (decimalValue digits) = digits.dropWhile (· == '0') := by
  induction digits with
  | nil => simp [decimalValue] at hone
  | cons c digits ih =>
    obtain ⟨hc, hdigits⟩ := List.forall_mem_cons.mp h
    by_cases hzero : c = '0'
    . subst hzero
      rw [decimalValue_cons_zero] at hone ⊢
      rw [List.dropWhile_cons_of_pos (by simp)]
      exact ih hdigits hone
    . have hpos : 0 < c.toNat - '0'.toNat := one_le_digit hc.1 hzero
      rw [List.dropWhile_cons_of_neg (by simpa using hzero), ← ofDigitChars_eq_decimalValue, Nat.ofDigitChars_cons,
        Nat.mul_zero, Nat.zero_add, ← ofNat_append hpos hdigits, ofNat_digit hc, List.singleton_append]

end

end Excerpt
