import Mathlib.Algebra.Group.Nat.Defs
import Mathlib.Data.List.Forall2
import Excerpt.Selection.Parser

/-!
This module contains the grammar of written selections, and what its words mean: a numeral stands for its decimal
value, a token for one span, and a list for the spans of its tokens. The reader accepts just these lists and gives
them this meaning.
-/

namespace Excerpt

def decimalValue : Text → Nat
  | [] => 0
  | c :: digits => (c.toNat - '0'.toNat) * 10 ^ digits.length + decimalValue digits

def IsDigits (token : Text) : Prop := token ≠ [] ∧ ∀ c ∈ token, '0' ≤ c ∧ c ≤ '9'

/--
A number from 1 on, in ASCII digits. Zeros may stand in front of it; without them it has at most 4300 digits.
-/
structure Numeral (token : Text) : Prop where
  digits : IsDigits token
  one_le : 1 ≤ decimalValue token
  length_le : (token.dropWhile (· == '0')).length ≤ 4300

/--
A token and the span that it stands for: the position of one number, or the positions between two numbers, both
included. Of two numbers the first is the lower one.
-/
inductive Span.Written : Text → Span → Prop
  | number {token : Text} (h : Numeral token) : Written token ⟨decimalValue token - 1, decimalValue token⟩
  | range {first second : Text} (hfirst : Numeral first) (hsecond : Numeral second)
    (hlt : decimalValue first < decimalValue second)
    : Written (first ++ '-' :: second) ⟨decimalValue first - 1, decimalValue second⟩

section

variable {token : Text} {c : Char}

theorem isNumeral_iff : isNumeral token = true ↔ IsDigits token := by
  simp [isNumeral, IsDigits, Char.isDigit, Char.le_def]

theorem IsDigits.not_mem (h : IsDigits token) (hc : ¬ ('0' ≤ c ∧ c ≤ '9')) : c ∉ token := by
  intro hmem
  exact hc (h.2 c hmem)

theorem IsDigits.dash_not_mem (h : IsDigits token) : '-' ∉ token := h.not_mem (by decide)

theorem one_le_digit (h : '0' ≤ c) (hne : c ≠ '0') : 1 ≤ c.toNat - '0'.toNat := by
  have hle : '0'.toNat ≤ c.toNat := h
  have hne : c.toNat ≠ '0'.toNat := fun heq => hne (Char.toNat_inj.mp heq)
  omega

theorem ofDigitChars_eq_decimalValue (digits : Text) : Nat.ofDigitChars 10 digits 0 = decimalValue digits := by
  induction digits with
  | nil => rfl
  | cons c digits ih =>
    rw [Nat.ofDigitChars_cons, Nat.ofDigitChars_eq_ofDigitChars_zero, ih, decimalValue, Nat.mul_zero, Nat.zero_add,
      Nat.mul_comm]

theorem decimalValue_cons_zero : decimalValue ('0' :: token) = decimalValue token := by
  simp [decimalValue]

theorem decimalValue_dropWhile_zero : decimalValue (token.dropWhile (· == '0')) = decimalValue token := by
  induction token with
  | nil => rfl
  | cons c token ih =>
    by_cases hc : c = '0'
    . subst hc
      rw [List.dropWhile_cons_of_pos (by simp), ih, decimalValue_cons_zero]
    . rw [List.dropWhile_cons_of_neg (by simpa using hc)]

theorem one_le_decimalValue_iff (h : ∀ c ∈ token, '0' ≤ c ∧ c ≤ '9') :
    1 ≤ decimalValue token ↔ token.dropWhile (· == '0') ≠ [] := by
  induction token with
  | nil => simp [decimalValue]
  | cons c token ih =>
    by_cases hc : c = '0'
    . subst hc
      rw [List.dropWhile_cons_of_pos (by simp), decimalValue_cons_zero]
      exact ih fun e he => h e (List.mem_cons_of_mem _ he)
    . -- The first digit that is not a zero counts for something.
      have hdigit : 1 ≤ c.toNat - '0'.toNat := one_le_digit (h c List.mem_cons_self).1 hc
      have hvalue : 0 < (c.toNat - '0'.toNat) * 10 ^ token.length := Nat.mul_pos hdigit (Nat.pow_pos (by decide))
      rw [List.dropWhile_cons_of_neg (by simpa using hc), decimalValue]
      simp only [ne_eq, reduceCtorEq, not_false_eq_true, iff_true]
      omega

theorem numeral_iff :
    Numeral token
      ↔ (isNumeral token && !(token.dropWhile (· == '0')).isEmpty
          && (token.dropWhile (· == '0')).length ≤ maxDigits) = true := by
  simp only [Bool.and_eq_true, Bool.not_eq_true', List.isEmpty_eq_false_iff, decide_eq_true_eq, isNumeral_iff]
  constructor
  . intro h
    exact ⟨⟨h.digits, (one_le_decimalValue_iff h.digits.2).mp h.one_le⟩, h.length_le⟩
  . intro h
    exact ⟨h.1.1, (one_le_decimalValue_iff h.1.1.2).mpr h.1.2, h.2⟩

namespace Position

theorem parse_of_numeral (h : Numeral token) : parse token = .ok (decimalValue token - 1) := by
  simp only [parse, numeral_iff.mp h, if_true, ofDigitChars_eq_decimalValue, decimalValue_dropWhile_zero]

theorem parse_of_not_numeral (h : ¬ Numeral token) : parse token = .error (.illegalValue token) := by
  simp only [parse, ← numeral_iff, h, if_false]

end Position

end

namespace Span

variable {token first second : Text} {span : Span}

theorem splitOn_dash (hfirst : '-' ∉ first) (hsecond : '-' ∉ second) :
    (first ++ '-' :: second).splitOn '-' = [first, second] := by
  rw [List.splitOn_append_cons_self_of_not_mem hfirst, List.splitOn_eq_singleton hsecond]

theorem eq_of_splitOn_dash (h : token.splitOn '-' = [first, second]) : token = first ++ '-' :: second := by
  have hjoin : ['-'].intercalate (token.splitOn '-') = token := List.intercalate_splitOn '-'
  rw [← hjoin, h]
  simp

theorem not_numeral_of_dash : ¬ Numeral (first ++ '-' :: second) := by
  intro h
  exact h.digits.dash_not_mem (List.mem_append_right _ List.mem_cons_self)

theorem ofBounds_eq_ok_iff :
    ofBounds first second = .ok span
      ↔ Numeral first ∧ Numeral second ∧ decimalValue first < decimalValue second
          ∧ span = ⟨decimalValue first - 1, decimalValue second⟩ := by
  by_cases hfirst : Numeral first
  . by_cases hsecond : Numeral second
    . have hone : 1 ≤ decimalValue first := hfirst.one_le
      have hone' : 1 ≤ decimalValue second := hsecond.one_le
      have hlt : decimalValue first - 1 < decimalValue second - 1 ↔ decimalValue first < decimalValue second := by
        omega
      simp only [ofBounds, Position.parse_of_numeral hfirst, Position.parse_of_numeral hsecond, hlt,
        Nat.sub_add_cancel hone']
      by_cases h : decimalValue first < decimalValue second
      . simp [h, hfirst, hsecond, eq_comm]
      . simp [h]
    . simp [ofBounds, Position.parse_of_numeral hfirst, Position.parse_of_not_numeral hsecond, hsecond]
  . simp [ofBounds, Position.parse_of_not_numeral hfirst, hfirst]

theorem parse_of_numeral (h : Numeral token) : parse token = .ok ⟨decimalValue token - 1, decimalValue token⟩ := by
  rw [parse, Position.parse_of_numeral h]
  simp only [Nat.sub_add_cancel h.one_le]

theorem parse_of_bounds (hfirst : IsDigits first) (hsecond : IsDigits second) :
    parse (first ++ '-' :: second) = ofBounds first second := by
  rw [parse, Position.parse_of_not_numeral not_numeral_of_dash,
    splitOn_dash hfirst.dash_not_mem hsecond.dash_not_mem]
  simp [isNumeral_iff, hfirst, hsecond]

theorem parse_of_not_bounds (hnumeral : ¬ Numeral token)
    (hbounds : ∀ first second, IsDigits first → IsDigits second → token ≠ first ++ '-' :: second) :
    parse token = .error (.illegalValue token) := by
  rw [parse, Position.parse_of_not_numeral hnumeral]
  dsimp only
  split
  . next first second hsplit =>
    split
    . next hdigits =>
      rw [Bool.and_eq_true, isNumeral_iff, isNumeral_iff] at hdigits
      exact absurd (eq_of_splitOn_dash hsplit) (hbounds first second hdigits.1 hdigits.2)
    . rfl
  . rfl

theorem token_cases (token : Text) :
    Numeral token
      ∨ (∃ first second, IsDigits first ∧ IsDigits second ∧ token = first ++ '-' :: second)
      ∨ (¬ Numeral token
          ∧ ∀ first second, IsDigits first → IsDigits second → token ≠ first ++ '-' :: second) := by
  by_cases hnumeral : Numeral token
  . exact .inl hnumeral
  . by_cases hbounds : ∃ first second, IsDigits first ∧ IsDigits second ∧ token = first ++ '-' :: second
    . exact .inr (.inl hbounds)
    . refine .inr (.inr ⟨hnumeral, ?_⟩)
      intro first second hfirst hsecond heq
      exact hbounds ⟨first, second, hfirst, hsecond, heq⟩

theorem parse_eq_ok_iff : parse token = .ok span ↔ Written token span := by
  constructor
  . intro h
    rcases token_cases token with hnumeral | ⟨first, second, hfirst, hsecond, rfl⟩ | ⟨hnumeral, hbounds⟩
    . rw [parse_of_numeral hnumeral, Except.ok.injEq] at h
      exact h ▸ .number hnumeral
    . rw [parse_of_bounds hfirst hsecond, ofBounds_eq_ok_iff] at h
      obtain ⟨hfirst, hsecond, hlt, rfl⟩ := h
      exact .range hfirst hsecond hlt
    . rw [parse_of_not_bounds hnumeral hbounds] at h
      cases h
  . intro h
    cases h with
    | number hnumeral => exact parse_of_numeral hnumeral
    | range hfirst hsecond hlt =>
      rw [parse_of_bounds hfirst.digits hsecond.digits, ofBounds_eq_ok_iff]
      exact ⟨hfirst, hsecond, hlt, rfl⟩

namespace Written

theorem start_lt_stop (h : Written token span) : span.start < span.stop := by
  cases h with
  | number h =>
    have hone := h.one_le
    dsimp only
    omega
  | range hfirst _ hlt =>
    have hone := hfirst.one_le
    dsimp only
    omega

theorem mem_token (h : Written token span) {c : Char} (hc : c ∈ token) : ('0' ≤ c ∧ c ≤ '9') ∨ c = '-' := by
  cases h with
  | number h => exact .inl (h.digits.2 c hc)
  | range hfirst hsecond =>
    rcases List.mem_append.mp hc with hc | hc
    . exact .inl (hfirst.digits.2 c hc)
    . cases hc with
      | head => exact .inr rfl
      | tail _ hc => exact .inl (hsecond.digits.2 c hc)

theorem head?_token_ne_dash (h : Written token span) : token.head? ≠ some '-' := by
  cases h with
  | number h =>
    intro hhead
    exact h.digits.dash_not_mem (List.mem_of_head? hhead)
  | range hfirst =>
    rw [List.head?_append_of_ne_nil _ hfirst.digits.1]
    intro hhead
    exact hfirst.digits.dash_not_mem (List.mem_of_head? hhead)

theorem getLast?_token_ne_dash (h : Written token span) : token.getLast? ≠ some '-' := by
  cases h with
  | number h =>
    intro hlast
    exact h.digits.dash_not_mem (List.mem_of_getLast? hlast)
  | range _ hsecond =>
    rw [List.getLast?_append_of_ne_nil _ (List.cons_ne_nil _ _), List.getLast?_cons_of_ne_nil hsecond.digits.1]
    intro hlast
    exact hsecond.digits.dash_not_mem (List.mem_of_getLast? hlast)

theorem count_dash_le (h : Written token span) : token.count '-' ≤ 1 := by
  cases h with
  | number h => simp [List.count_eq_zero_of_not_mem h.digits.dash_not_mem]
  | range hfirst hsecond =>
    simp [List.count_append, List.count_eq_zero_of_not_mem hfirst.digits.dash_not_mem,
      List.count_eq_zero_of_not_mem hsecond.digits.dash_not_mem]

theorem token_ne_nil (h : Written token span) : token ≠ [] := by
  cases h with
  | number h => exact h.digits.1
  | range => simp

theorem lt_of_dash (h : Written (first ++ '-' :: second) span) : decimalValue first < decimalValue second := by
  generalize htoken : first ++ '-' :: second = token at h
  cases h with
  | number h => exact absurd (htoken ▸ h) not_numeral_of_dash
  | range hfirst hsecond hlt =>
    -- There is only one dash, so the token is divided in only one way.
    have hparts :=
      (List.append_cons_inj_of_notMem hfirst.digits.dash_not_mem hsecond.digits.dash_not_mem).mp htoken.symm
    rw [← hparts.1, ← hparts.2.2]
    exact hlt

end Written

end Span

namespace Selection

theorem mapM_cons_eq_ok_iff {α β ε : Type} {f : α → Except ε β} {x : α} {xs : List α} {ys : List β} :
    (x :: xs).mapM f = .ok ys ↔ ∃ y zs, f x = .ok y ∧ xs.mapM f = .ok zs ∧ ys = y :: zs := by
  rw [List.mapM_cons]
  cases f x with
  | error e => simp [bind, Except.bind]
  | ok y =>
    cases xs.mapM f with
    | error e => simp [bind, Except.bind]
    | ok zs => simp [bind, Except.bind, pure, Except.pure, eq_comm]

theorem mapM_eq_ok_iff {α β ε : Type} {f : α → Except ε β} {xs : List α} {ys : List β} :
    xs.mapM f = .ok ys ↔ List.Forall₂ (fun x y => f x = .ok y) xs ys := by
  induction xs generalizing ys with
  | nil => simp [pure, Except.pure, eq_comm]
  | cons x xs ih => simp only [mapM_cons_eq_ok_iff, List.forall₂_cons_left_iff, ih]

variable {list : Text} {selection : Selection}

theorem parse_eq_ok_iff : parse list = .ok selection ↔ List.Forall₂ Span.Written (list.splitOn ',') selection := by
  simp only [parse, mapM_eq_ok_iff, Span.parse_eq_ok_iff]

theorem exists_forall₂_iff {α β : Type} {R : α → β → Prop} {xs : List α} :
    (∃ ys, List.Forall₂ R xs ys) ↔ ∀ x ∈ xs, ∃ y, R x y := by
  induction xs with
  | nil => simp
  | cons x xs ih =>
    rw [List.forall_mem_cons, ← ih]
    constructor
    . intro h
      obtain ⟨ys, h⟩ := h
      cases h with
      | cons hx hxs => exact ⟨⟨_, hx⟩, _, hxs⟩
    . intro h
      obtain ⟨⟨y, hx⟩, ys, hxs⟩ := h
      exact ⟨y :: ys, .cons hx hxs⟩

theorem exists_parse_eq_ok_iff :
    (∃ selection, parse list = .ok selection) ↔ ∀ token ∈ list.splitOn ',', ∃ span, Span.Written token span := by
  simp only [parse_eq_ok_iff, exists_forall₂_iff]

theorem parse_eq_error {token : Text} (hmem : token ∈ list.splitOn ',') (h : ∀ span, ¬ Span.Written token span) :
    ∃ e, parse list = .error e := by
  cases hparse : parse list with
  | error e => exact ⟨e, rfl⟩
  | ok selection =>
    obtain ⟨span, hspan⟩ := exists_parse_eq_ok_iff.mp ⟨selection, hparse⟩ token hmem
    exact absurd hspan (h span)

theorem exists_token_of_mem {c : Char} (hc : c ∈ list) (hcomma : c ≠ ',') :
    ∃ token ∈ list.splitOn ',', c ∈ token := by
  induction list with
  | nil => cases hc
  | cons e list ih =>
    rw [List.splitOn_cons_eq_if_modifyHead]
    cases hsplit : list.splitOn ',' with
    | nil => exact absurd hsplit (List.splitOn_ne_nil ',' list)
    | cons token tokens =>
      rw [hsplit] at ih
      split
      . next he =>
        cases hc with
        | head => exact absurd (eq_of_beq he) hcomma
        | tail _ hc =>
          obtain ⟨token', hmem, hc⟩ := ih hc
          exact ⟨token', List.mem_cons_of_mem _ hmem, hc⟩
      . rw [List.modifyHead_cons]
        cases hc with
        | head => exact ⟨_, List.mem_cons_self, List.mem_cons_self⟩
        | tail _ hc =>
          obtain ⟨token', hmem, hc⟩ := ih hc
          cases hmem with
          | head => exact ⟨_, List.mem_cons_self, List.mem_cons_of_mem _ hc⟩
          | tail _ hmem => exact ⟨token', List.mem_cons_of_mem _ hmem, hc⟩

theorem start_lt_stop_of_written {tokens : List Text} (h : List.Forall₂ Span.Written tokens selection) :
    ∀ span ∈ selection, span.start < span.stop := by
  induction h with
  | nil => simp
  | cons hspan _ ih => exact List.forall_mem_cons.mpr ⟨hspan.start_lt_stop, ih⟩

theorem parse_iff_written (list : Text) :
    ((∃ selection, parse list = .ok selection) ↔ ∀ token ∈ list.splitOn ',', ∃ span, Span.Written token span)
      ∧ (∀ selection, parse list = .ok selection ↔ List.Forall₂ Span.Written (list.splitOn ',') selection)
      ∧ (∀ selection, parse list = .ok selection → ∀ span ∈ selection, span.start < span.stop)
      ∧ (∀ c ∈ list, ¬ ('0' ≤ c ∧ c ≤ '9') → c ≠ '-' → c ≠ ',' → ∃ e, parse list = .error e)
      ∧ (∀ token ∈ list.splitOn ',',
          token = [] ∨ token.head? = some '-' ∨ token.getLast? = some '-' ∨ 1 < token.count '-' →
            ∃ e, parse list = .error e)
      ∧ (∀ first second, first ++ '-' :: second ∈ list.splitOn ',' → decimalValue second ≤ decimalValue first →
          ∃ e, parse list = .error e) := by
  refine ⟨exists_parse_eq_ok_iff, fun selection => parse_eq_ok_iff, ?_, ?_, ?_, ?_⟩
  . intro selection hparse span hspan
    exact start_lt_stop_of_written (parse_eq_ok_iff.mp hparse) span hspan
  . intro c hc hdigit hdash hcomma
    obtain ⟨token, hmem, hc⟩ := exists_token_of_mem hc hcomma
    apply parse_eq_error hmem
    intro span h
    rcases h.mem_token hc with h | h
    . exact hdigit h
    . exact hdash h
  . intro token hmem htoken
    apply parse_eq_error hmem
    intro span h
    rcases htoken with htoken | htoken | htoken | htoken
    . exact h.token_ne_nil htoken
    . exact h.head?_token_ne_dash htoken
    . exact h.getLast?_token_ne_dash htoken
    . exact Nat.not_lt.mpr h.count_dash_le htoken
  . intro first second hmem hle
    apply parse_eq_error hmem
    intro span h
    exact Nat.not_lt.mpr hle h.lt_of_dash

end Selection

end Excerpt
