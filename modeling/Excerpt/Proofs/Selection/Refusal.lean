import Excerpt.Proofs.Selection.Decimal

/-!
This module contains what is said of written selections that are refused. The first token that cannot be read decides,
whatever follows it. Of two numbers around a dash it is the first unacceptable one that is named, or their order; any
other token is named as a whole.
-/

namespace Excerpt

/--
Why digits are no number to count from 1 with: they stand for zero, or are too many behind the zeros in front.
-/
def OutOfRange (digits : Text) : Prop := decimalValue digits = 0 ∨ 4300 < (digits.dropWhile (· == '0')).length

inductive Span.Refused : Text → Text → Prop
  | first {first second : Text} (hfirst : IsDigits first) (hsecond : IsDigits second) (h : OutOfRange first)
    : Refused (first ++ '-' :: second) ("illegal list value \"".toList ++ first ++ ['"'])
  | second {first second : Text} (hfirst : IsDigits first) (hsecond : IsDigits second) (hrange : ¬ OutOfRange first)
    (h : OutOfRange second)
    : Refused (first ++ '-' :: second) ("illegal list value \"".toList ++ second ++ ['"'])
  /-- Both numbers are acceptable. They are shown without the zeros in front of them. -/
  | descending {first second : Text} (hfirst : IsDigits first) (hsecond : IsDigits second)
    (hrange : ¬ OutOfRange first) (hrange' : ¬ OutOfRange second) (h : decimalValue second ≤ decimalValue first)
    : Refused (first ++ '-' :: second)
        ("First number in range (".toList ++ first.dropWhile (· == '0')
          ++ ") must be lower than second number (".toList ++ second.dropWhile (· == '0') ++ [')'])
  | token {token : Text} (h : ¬ Numeral token)
    (hbounds : ∀ first second, IsDigits first → IsDigits second → token ≠ first ++ '-' :: second)
    : Refused token ("illegal list value \"".toList ++ token ++ ['"'])

section

variable {digits token first second message : Text} {e : SelectionError}

theorem IsDigits.numeral_iff (h : IsDigits digits) : Numeral digits ↔ ¬ OutOfRange digits := by
  unfold OutOfRange
  constructor
  . intro hnumeral
    have hone := hnumeral.one_le
    have hlength := hnumeral.length_le
    omega
  . intro hrange
    exact ⟨h, by omega, by omega⟩

namespace Span

theorem ofBounds_of_first (h : ¬ Numeral first) : ofBounds first second = .error (.illegalValue first) := by
  simp only [ofBounds, Position.parse_of_not_numeral h]

theorem ofBounds_of_second (hfirst : Numeral first) (h : ¬ Numeral second) :
    ofBounds first second = .error (.illegalValue second) := by
  simp only [ofBounds, Position.parse_of_numeral hfirst, Position.parse_of_not_numeral h]

theorem ofBounds_of_le (hfirst : Numeral first) (hsecond : Numeral second)
    (hle : decimalValue second ≤ decimalValue first) :
    ofBounds first second = .error (.notAscending (decimalValue first) (decimalValue second)) := by
  have hlt : ¬ (decimalValue first - 1 < decimalValue second - 1) := by omega
  simp only [ofBounds, Position.parse_of_numeral hfirst, Position.parse_of_numeral hsecond, hlt, if_false,
    Nat.sub_add_cancel hfirst.one_le, Nat.sub_add_cancel hsecond.one_le]

theorem message_notAscending (hfirst : Numeral first) (hsecond : Numeral second) :
    (SelectionError.notAscending (decimalValue first) (decimalValue second)).message
      = "First number in range (".toList ++ first.dropWhile (· == '0')
        ++ ") must be lower than second number (".toList ++ second.dropWhile (· == '0') ++ [')'] := by
  unfold SelectionError.message
  dsimp only
  rw [ofNat_decimalValue hfirst.digits.2 hfirst.one_le, ofNat_decimalValue hsecond.digits.2 hsecond.one_le]

theorem Refused.parse_eq_error (h : Refused token message) : ∃ e, parse token = .error e ∧ e.message = message := by
  cases h with
  | first hfirst hsecond h =>
    rw [parse_of_bounds hfirst hsecond, ofBounds_of_first fun hnumeral => hfirst.numeral_iff.mp hnumeral h]
    exact ⟨_, rfl, rfl⟩
  | second hfirst hsecond hrange h =>
    rw [parse_of_bounds hfirst hsecond, ofBounds_of_second (hfirst.numeral_iff.mpr hrange)
      fun hnumeral => hsecond.numeral_iff.mp hnumeral h]
    exact ⟨_, rfl, rfl⟩
  | descending hfirst hsecond hrange hrange' h =>
    have hnumeral := hfirst.numeral_iff.mpr hrange
    have hnumeral' := hsecond.numeral_iff.mpr hrange'
    rw [parse_of_bounds hfirst hsecond, ofBounds_of_le hnumeral hnumeral' h]
    exact ⟨_, rfl, message_notAscending hnumeral hnumeral'⟩
  | token h hbounds =>
    rw [parse_of_not_bounds h hbounds]
    exact ⟨_, rfl, rfl⟩

theorem exists_refused (h : parse token = .error e) : ∃ message, Refused token message := by
  rcases token_cases token with hnumeral | ⟨first, second, hfirst, hsecond, rfl⟩ | ⟨hnumeral, hbounds⟩
  . rw [parse_of_numeral hnumeral] at h
    cases h
  . by_cases hrange : OutOfRange first
    . exact ⟨_, .first hfirst hsecond hrange⟩
    . by_cases hrange' : OutOfRange second
      . exact ⟨_, .second hfirst hsecond hrange hrange'⟩
      . by_cases hle : decimalValue second ≤ decimalValue first
        . exact ⟨_, .descending hfirst hsecond hrange hrange' hle⟩
        . -- Two acceptable numbers in ascending order are no error.
          have hwritten := Written.range (hfirst.numeral_iff.mpr hrange) (hsecond.numeral_iff.mpr hrange')
            (Nat.lt_of_not_le hle)
          rw [parse_eq_ok_iff.mpr hwritten] at h
          cases h
  . exact ⟨_, .token hnumeral hbounds⟩

theorem refused_iff (h : parse token = .error e) : Refused token message ↔ message = e.message := by
  have hmessage {message : Text} (hrefused : Refused token message) : message = e.message := by
    obtain ⟨e', hparse, rfl⟩ := hrefused.parse_eq_error
    rw [h, Except.error.injEq] at hparse
    rw [hparse]
  constructor
  . exact hmessage
  . rintro rfl
    obtain ⟨message, hrefused⟩ := exists_refused h
    rw [← hmessage hrefused]
    exact hrefused

end Span

namespace Selection

theorem mapM_cons_eq_error_iff {α β ε : Type} {f : α → Except ε β} {x : α} {xs : List α} {e : ε} :
    (x :: xs).mapM f = .error e ↔ f x = .error e ∨ (∃ y, f x = .ok y) ∧ xs.mapM f = .error e := by
  rw [List.mapM_cons]
  cases f x with
  | error e' => simp [bind, Except.bind]
  | ok y =>
    cases xs.mapM f with
    | error e' => simp [bind, Except.bind]
    | ok ys => simp [bind, Except.bind, pure, Except.pure]

theorem mapM_eq_error_iff {α β ε : Type} {f : α → Except ε β} {xs : List α} {e : ε} :
    xs.mapM f = .error e
      ↔ ∃ before x after, xs = before ++ x :: after ∧ (∀ y ∈ before, ∃ z, f y = .ok z) ∧ f x = .error e := by
  induction xs with
  | nil => simp [pure, Except.pure]
  | cons x xs ih =>
    rw [mapM_cons_eq_error_iff, ih]
    constructor
    . rintro (hx | ⟨hx, before, x', after, rfl, hbefore, hx'⟩)
      . exact ⟨[], x, xs, rfl, List.forall_mem_nil _, hx⟩
      . exact ⟨x :: before, x', after, rfl, List.forall_mem_cons.mpr ⟨hx, hbefore⟩, hx'⟩
    . rintro ⟨before, x', after, hxs, hbefore, hx'⟩
      cases before with
      | nil =>
        obtain ⟨rfl, rfl⟩ := List.cons.inj hxs
        exact .inl hx'
      | cons y before =>
        obtain ⟨rfl, rfl⟩ := List.cons.inj hxs
        obtain ⟨hx, hbefore⟩ := List.forall_mem_cons.mp hbefore
        exact .inr ⟨hx, before, x', after, rfl, hbefore, hx'⟩

theorem parse_error_leftmost {list : Text} (h : parse list = .error e) :
    ∃ before token after, list.splitOn ',' = before ++ token :: after
      ∧ (∀ t ∈ before, ∃ span, Span.parse t = .ok span)
      ∧ Span.parse token = .error e
      ∧ (∀ message, Span.Refused token message ↔ message = e.message)
      ∧ ∀ other : Text, before ++ [token] <+: other.splitOn ',' → parse other = .error e := by
  obtain ⟨before, token, after, hsplit, hbefore, htoken⟩ := mapM_eq_error_iff.mp h
  refine ⟨before, token, after, hsplit, hbefore, htoken, fun message => Span.refused_iff htoken, ?_⟩
  rintro other ⟨rest, hother⟩
  rw [List.append_assoc, List.singleton_append] at hother
  exact mapM_eq_error_iff.mpr ⟨before, token, rest, hother.symm, hbefore, htoken⟩

theorem parse_error_leftmost_descending :
    let list := "2,010-09,x".toList
    let e : SelectionError := .notAscending 10 9
    parse list = .error e
      ∧ ∃ before token after, list.splitOn ',' = before ++ token :: after
          ∧ (∀ t ∈ before, ∃ span, Span.parse t = .ok span)
          ∧ Span.parse token = .error e
          ∧ (∀ message, Span.Refused token message ↔ message = e.message)
          ∧ ∀ other : Text, before ++ [token] <+: other.splitOn ',' → parse other = .error e := by
  intro list e
  have h : parse list = .error e := rfl
  exact ⟨h, parse_error_leftmost h⟩

/-- The second bound is named by itself, although the first one is not lower either. -/
example : parse "1,9-00,x".toList = .error (.illegalValue "00".toList) := rfl

end Selection

end

end Excerpt
