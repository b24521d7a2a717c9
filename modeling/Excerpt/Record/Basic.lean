import Excerpt.Text.Basic

/-!
This module contains the division of a record into fields. A field that starts with a double quote runs to its
closing quote; inside it a doubled quote stands for one quote and every other character for itself. Any other field
runs to the next delimiter, whatever quotes it holds.

The delimiter is any text: it is looked for as a whole, but only one character of it is stepped over, and the one
character after a closing quote has to be all of it.
-/

namespace Excerpt

inductive RecordError
  | unterminatedQuote
  /-- The character at `column`, counted from 1, follows a closing quote and is not the delimiter. -/
  | strayAfterQuote (column : Nat)
  deriving DecidableEq, Repr

namespace RecordError

def message : RecordError → Text
  | .unterminatedQuote => "unterminated quoted field".toList
  | .strayAfterQuote column => "expected delimiter after closing quote at column ".toList ++ Text.ofNat column

/--
The same error, seen from `offset` characters further left.
-/
def shift (offset : Nat) : RecordError → RecordError
  | .unterminatedQuote => .unterminatedQuote
  | .strayAfterQuote column => .strayAfterQuote (offset + column)

@[simp]
theorem shift_shift {e : RecordError} {m n : Nat} : (e.shift m).shift n = e.shift (n + m) := by
  cases e with
  | unterminatedQuote => rfl
  | strayAfterQuote column => simp [shift, Nat.add_assoc]

@[simp]
theorem shift_zero {e : RecordError} : e.shift 0 = e := by
  cases e with
  | unterminatedQuote => rfl
  | strayAfterQuote column => simp [shift]

end RecordError

namespace Record

/--
Reads a quoted field from behind its opening quote: the value, and the text behind the closing quote.
-/
def closeQuote : Text → Option (Text × Text)
  | [] => none
  | '"' :: '"' :: s => (closeQuote s).map fun (value, rest) => ('"' :: value, rest)
  | c :: s =>
    if c = '"' then
      some ([], s)
    else
      (closeQuote s).map fun (value, rest) => (c :: value, rest)

theorem closeQuote_cons_of_ne {c : Char} {s : Text} (hc : c ≠ '"') :
    closeQuote (c :: s) = (closeQuote s).map fun (value, rest) => (c :: value, rest) := by
  rw [closeQuote, if_neg hc]
  intro s' heq
  exact absurd heq hc

theorem closeQuote_pair {s : Text} :
    closeQuote ('"' :: '"' :: s) = (closeQuote s).map fun (value, rest) => ('"' :: value, rest) := by
  rw [closeQuote]

theorem closeQuote_quote {s : Text} (hs : s.head? ≠ some '"') : closeQuote ('"' :: s) = some ([], s) := by
  rw [closeQuote, if_pos rfl]
  intro s' _ heq
  simp [heq] at hs

theorem length_le_of_closeQuote {s value rest : Text} (h : closeQuote s = some (value, rest)) :
    value.length + rest.length + 1 ≤ s.length := by
  fun_induction closeQuote s generalizing value with
  | case1 => simp at h
  | case2 s ih =>
    obtain ⟨⟨v, r⟩, hs, hv⟩ := Option.map_eq_some_iff.mp h
    simp only [Prod.mk.injEq] at hv
    obtain ⟨rfl, rfl⟩ := hv
    have := ih hs
    simp only [List.length_cons]
    omega
  | case3 s _ => simp_all
  | case4 c s _ _ ih =>
    obtain ⟨⟨v, r⟩, hs, hv⟩ := Option.map_eq_some_iff.mp h
    simp only [Prod.mk.injEq] at hv
    obtain ⟨rfl, rfl⟩ := hv
    have := ih hs
    simp only [List.length_cons]
    omega

/--
Reads the first field of a text: its value, and the rest of the text from the delimiter on. The rest is empty if
no delimiter follows.
-/
def firstField (delimiter : Text) (s : Text) : Except RecordError (Text × Text) :=
  match s with
  | '"' :: body =>
    match closeQuote body with
    | none => .error .unterminatedQuote
    | some (value, []) => .ok (value, [])
    | some (value, c :: rest) =>
      if [c] = delimiter then
        .ok (value, c :: rest)
      else
        .error (.strayAfterQuote (s.length - rest.length))
  | _ =>
    match Text.breakOn delimiter s with
    | none => .ok (s, [])
    | some field => .ok field

theorem firstField_of_head_ne {delimiter s : Text} (h : s.head? ≠ some '"') :
    firstField delimiter s
      = match Text.breakOn delimiter s with
        | none => .ok (s, [])
        | some field => .ok field := by
  rw [firstField]
  intro body heq
  simp [heq] at h

theorem length_le_of_firstField {delimiter s value rest : Text}
    (h : firstField delimiter s = .ok (value, rest)) : value.length + rest.length ≤ s.length := by
  unfold firstField at h
  split at h
  . split at h
    . cases h
    . next hbody =>
      cases h
      have := length_le_of_closeQuote hbody
      simp_all
      omega
    . next hbody =>
      split at h
      . cases h
        have := length_le_of_closeQuote hbody
        simp_all
        omega
      . cases h
  . split at h
    . cases h
      simp
    . next hfield =>
      cases h
      rw [← Text.append_of_breakOn hfield]
      simp

/--
Splits a text into fields. Behind each field but the last one character is stepped over; a text that ends with
that character has one more field, which is empty.
-/
def split (delimiter : Text) (s : Text) : Except RecordError (List Text) :=
  match _h : firstField delimiter s with
  | .error e => .error e
  | .ok (field, []) => .ok [field]
  | .ok (field, _ :: rest) =>
    match split delimiter rest with
    | .error e => .error (e.shift (s.length - rest.length))
    | .ok fields => .ok (field :: fields)
termination_by s.length
decreasing_by
  have := length_le_of_firstField _h
  simp only [List.length_cons] at this
  omega

theorem split_of_last {delimiter s field : Text} (h : firstField delimiter s = .ok (field, [])) :
    split delimiter s = .ok [field] := by
  unfold split
  split <;> simp_all

theorem split_of_error {delimiter s : Text} {e : RecordError} (h : firstField delimiter s = .error e) :
    split delimiter s = .error e := by
  unfold split
  split <;> simp_all

theorem split_of_more {delimiter s field rest : Text} {c : Char}
    (h : firstField delimiter s = .ok (field, c :: rest)) :
    split delimiter s
      = match split delimiter rest with
        | .error e => .error (e.shift (s.length - rest.length))
        | .ok fields => .ok (field :: fields) := by
  rw [split]
  split <;> simp_all

end Record

end Excerpt
