import Excerpt.Proofs.Record.Grammar

/-!
This module contains the three forms that a text can have as a record, and the result of `split` for each of them:
the values of the fields of a complete record, or one of the two errors. Every text has exactly one of the forms.
-/

namespace Excerpt

namespace Record

structure Complete (d : Char) (line : Text) (raws fields : List Text) : Prop where
  raws_ne_nil : raws ≠ []
  rawFields : List.Forall₂ (RawField d) raws fields
  line_eq : line = [d].intercalate raws

def terminated (d : Char) (raws : List Text) : Text := raws.flatMap fun raw => raw ++ [d]

def Unclosed (d : Char) (line : Text) : Prop :=
  ∃ raws fields body value,
    List.Forall₂ (RawField d) raws fields
      ∧ QuotedBody body value
      ∧ line = terminated d raws ++ '"' :: body

/--
Behind some fields and their delimiters, a quoted field is followed by a character that is neither the delimiter nor
a quote. That character stands at `column`, counted from 1.
-/
def Stray (d : Char) (line : Text) (column : Nat) : Prop :=
  ∃ raws fields body value c rest,
    List.Forall₂ (RawField d) raws fields
      ∧ QuotedBody body value
      ∧ c ≠ d
      ∧ c ≠ '"'
      ∧ line = terminated d raws ++ '"' :: (body ++ ['"']) ++ c :: rest
      ∧ column = (terminated d raws ++ '"' :: (body ++ ['"'])).length + 1

section

variable {d : Char} {line raw value : Text} {raws fields : List Text} {column : Nat}

@[simp]
theorem terminated_nil : terminated d [] = [] := rfl

@[simp]
theorem terminated_cons : terminated d (raw :: raws) = raw ++ d :: terminated d raws := by
  simp [terminated]

theorem Complete.last (h : RawField d raw value) : Complete d raw [raw] [value] where
  raws_ne_nil := by simp
  rawFields := by simpa using h
  line_eq := by simp

theorem Complete.more (h : RawField d raw value) (hline : Complete d line raws fields) :
    Complete d (raw ++ d :: line) (raw :: raws) (value :: fields) where
  raws_ne_nil := by simp
  rawFields := hline.rawFields.cons h
  line_eq := by
    rw [hline.line_eq, List.intercalate_cons_of_ne_nil hline.raws_ne_nil]
    simp

theorem Unclosed.more (h : RawField d raw value) (hline : Unclosed d line) : Unclosed d (raw ++ d :: line) := by
  obtain ⟨raws, fields, body, value, hraws, hbody, rfl⟩ := hline
  exact ⟨raw :: raws, _ :: fields, body, value, hraws.cons h, hbody, by simp⟩

theorem Stray.more (h : RawField d raw value) (hline : Stray d line column) :
    Stray d (raw ++ d :: line) (raw.length + 1 + column) := by
  obtain ⟨raws, fields, body, value, c, rest, hraws, hbody, hd, hquote, rfl, rfl⟩ := hline
  refine ⟨raw :: raws, _ :: fields, body, value, c, rest, hraws.cons h, hbody, hd, hquote, by simp, ?_⟩
  simp
  omega

theorem form_exists (d : Char) (line : Text) :
    (∃ raws fields, Complete d line raws fields) ∨ Unclosed d line ∨ ∃ column, Stray d line column := by
  induction line using fieldwise (d := d) with
  | last raw value h => exact .inl ⟨_, _, .last h⟩
  | unclosed body value h => exact .inr (.inl ⟨[], [], body, value, .nil, h, rfl⟩)
  | stray body value c rest h hd hquote =>
    exact .inr (.inr ⟨_, [], [], body, value, c, rest, .nil, h, hd, hquote, by simp, rfl⟩)
  | more raw value rest h ih =>
    rcases ih with ⟨raws, fields, hline⟩ | hline | ⟨column, hline⟩
    . exact .inl ⟨_, _, hline.more h⟩
    . exact .inr (.inl (hline.more h))
    . exact .inr (.inr ⟨_, hline.more h⟩)

theorem Complete.split_eq (h : Complete d line raws fields) (hd : d ≠ '"') : split [d] line = .ok fields := by
  obtain ⟨hne, hraws, rfl⟩ := h
  induction hraws with
  | nil => exact absurd rfl hne
  | cons hraw hraws ih =>
    cases hraws with
    | nil =>
      rw [List.intercalate_singleton]
      exact hraw.split_eq
    | cons =>
      rw [List.intercalate_cons_cons, List.append_assoc, List.singleton_append, hraw.split_append hd, ih (by simp)]

theorem split_terminated_append {rest : Text} (hraws : List.Forall₂ (RawField d) raws fields) (hd : d ≠ '"') :
    split [d] (terminated d raws ++ rest)
      = match split [d] rest with
        | .error e => .error (e.shift (terminated d raws).length)
        | .ok more => .ok (fields ++ more) := by
  induction hraws with
  | nil =>
    rw [terminated_nil, List.nil_append]
    cases split [d] rest with
    | error e => simp
    | ok more => simp
  | cons hraw hraws ih =>
    rw [terminated_cons, List.append_assoc, List.cons_append, hraw.split_append hd, ih]
    cases split [d] rest with
    | error e =>
      simp
      congr 1
      omega
    | ok more => simp

theorem Unclosed.split_eq (h : Unclosed d line) (hd : d ≠ '"') : split [d] line = .error .unterminatedQuote := by
  obtain ⟨raws, fields, body, value, hraws, hbody, rfl⟩ := h
  rw [split_terminated_append hraws hd, hbody.split_eq_error]
  rfl

theorem Stray.split_eq (h : Stray d line column) (hd : d ≠ '"') :
    split [d] line = .error (.strayAfterQuote column) := by
  obtain ⟨raws, fields, body, value, c, rest, hraws, hbody, hc, hquote, rfl, rfl⟩ := h
  have hstray : split [d] ('"' :: (body ++ '"' :: c :: rest)) = .error (.strayAfterQuote (body.length + 3)) :=
    hbody.split_stray hc hquote
  rw [List.append_assoc, split_terminated_append hraws hd]
  simp only [List.cons_append, List.append_assoc, List.nil_append]
  rw [hstray]
  simp [RecordError.shift]
  omega

theorem form_of_split (hd : d ≠ '"') (line : Text) :
    match split [d] line with
    | .ok fields => ∃ raws, Complete d line raws fields
    | .error .unterminatedQuote => Unclosed d line
    | .error (.strayAfterQuote column) => Stray d line column := by
  rcases form_exists d line with ⟨raws, fields, h⟩ | h | ⟨column, h⟩
  . rw [h.split_eq hd]
    exact ⟨raws, h⟩
  . rw [h.split_eq hd]
    exact h
  . rw [h.split_eq hd]
    exact h

theorem Complete.exists_of_split (hd : d ≠ '"') (hsplit : split [d] line = .ok fields) :
    ∃ raws, Complete d line raws fields := by
  have h := form_of_split hd line
  rw [hsplit] at h
  exact h

theorem Unclosed.of_split (hd : d ≠ '"') (hsplit : split [d] line = .error .unterminatedQuote) : Unclosed d line := by
  have h := form_of_split hd line
  rw [hsplit] at h
  exact h

theorem Stray.of_split (hd : d ≠ '"') (hsplit : split [d] line = .error (.strayAfterQuote column)) :
    Stray d line column := by
  have h := form_of_split hd line
  rw [hsplit] at h
  exact h

theorem Complete.not_unclosed (h : Complete d line raws fields) (hd : d ≠ '"') : ¬ Unclosed d line := by
  intro h'
  have hsplit := h.split_eq hd
  rw [h'.split_eq hd] at hsplit
  cases hsplit

theorem Complete.not_stray (h : Complete d line raws fields) (hd : d ≠ '"') : ¬ Stray d line column := by
  intro h'
  have hsplit := h.split_eq hd
  rw [h'.split_eq hd] at hsplit
  cases hsplit

theorem Unclosed.not_stray (h : Unclosed d line) (hd : d ≠ '"') : ¬ Stray d line column := by
  intro h'
  have hsplit := h.split_eq hd
  rw [h'.split_eq hd] at hsplit
  cases hsplit

theorem RawField.ne_append {raw' value' rest : Text} (h : RawField d raw value) (h' : RawField d raw' value')
    (hd : d ≠ '"') : raw ≠ raw' ++ d :: rest := by
  intro heq
  have hfirst : firstField [d] (raw' ++ d :: rest) = .ok (value', d :: rest) := h'.firstField_append hd
  rw [← heq, h.firstField_eq] at hfirst
  simp at hfirst

theorem RawField.append_inj {raw' value' rest rest' : Text} (h : RawField d raw value)
    (h' : RawField d raw' value') (hd : d ≠ '"') (heq : raw ++ d :: rest = raw' ++ d :: rest') :
    raw = raw' ∧ rest = rest' := by
  have hfirst : firstField [d] (raw ++ d :: rest) = .ok (value, d :: rest) := h.firstField_append hd
  rw [heq, h'.firstField_append hd] at hfirst
  simp only [Except.ok.injEq, Prod.mk.injEq, List.cons.injEq, true_and] at hfirst
  rw [hfirst.2] at heq
  exact ⟨List.append_cancel_right heq, hfirst.2.symm⟩

theorem Complete.raws_unique {raws' fields' : List Text} (h : Complete d line raws fields)
    (h' : Complete d line raws' fields') (hd : d ≠ '"') : raws = raws' := by
  obtain ⟨hne, hraws, rfl⟩ := h
  obtain ⟨hne', hraws', heq⟩ := h'
  induction hraws generalizing raws' fields' with
  | nil => exact absurd rfl hne
  | cons hraw hraws ih =>
    cases hraws' with
    | nil => exact absurd rfl hne'
    | cons hraw' hraws' =>
      -- The first fields end at the same place, at the end of the line or at a delimiter.
      cases hraws with
      | nil =>
        cases hraws' with
        | nil => simpa using heq
        | cons =>
          simp only [List.intercalate_singleton, List.intercalate_cons_cons, List.append_assoc,
            List.singleton_append] at heq
          exact absurd heq (hraw.ne_append hraw' hd)
      | cons =>
        cases hraws' with
        | nil =>
          simp only [List.intercalate_singleton, List.intercalate_cons_cons, List.append_assoc,
            List.singleton_append] at heq
          exact absurd heq.symm (hraw'.ne_append hraw hd)
        | cons hnext hmore =>
          simp only [List.intercalate_cons_cons, List.append_assoc, List.singleton_append] at heq
          obtain ⟨hfirst, hrest⟩ := hraw.append_inj hraw' hd heq
          rw [hfirst, ih (by simp) (by simp) (.cons hnext hmore) hrest]

theorem Complete.fields_unique {raws' fields' : List Text} (h : Complete d line raws fields)
    (h' : Complete d line raws' fields') (hd : d ≠ '"') : fields = fields' := by
  have hsplit := h.split_eq hd
  rw [h'.split_eq hd] at hsplit
  exact (Except.ok.inj hsplit).symm

end

theorem split_of_form {d : Char} (hd : d ≠ '"') (line : Text) :
    ((∃ raws fields, Complete d line raws fields) ∨ Unclosed d line ∨ ∃ column, Stray d line column)
      ∧ (∀ raws fields, Complete d line raws fields →
          split [d] line = .ok fields
            ∧ (∀ raws' fields', Complete d line raws' fields' → raws' = raws ∧ fields' = fields)
            ∧ ¬ Unclosed d line
            ∧ ∀ column, ¬ Stray d line column)
      ∧ (Unclosed d line →
          split [d] line = .error .unterminatedQuote
            ∧ RecordError.unterminatedQuote.message = "unterminated quoted field".toList
            ∧ ∀ column, ¬ Stray d line column)
      ∧ ∀ column, Stray d line column →
          split [d] line = .error (.strayAfterQuote column)
            ∧ (RecordError.strayAfterQuote column).message
                = "expected delimiter after closing quote at column ".toList ++ Text.ofNat column := by
  refine ⟨form_exists d line, ?_, ?_, ?_⟩
  . intro raws fields h
    refine ⟨h.split_eq hd, ?_, h.not_unclosed hd, fun column => h.not_stray hd⟩
    intro raws' fields' h'
    exact ⟨h'.raws_unique h hd, h'.fields_unique h hd⟩
  . intro h
    exact ⟨h.split_eq hd, rfl, fun column => h.not_stray hd⟩
  . intro column h
    exact ⟨h.split_eq hd, rfl⟩

theorem split_of_form_comma :
    ',' ≠ '"'
      ∧ Stray ',' "a,\"b\"x".toList 6
      ∧ split [','] "a,\"b\"x".toList = .error (.strayAfterQuote 6) := by
  have hstray : Stray ',' "a,\"b\"x".toList 6 := by
    refine ⟨[['a']], [['a']], ['b'], ['b'], 'x', [], ?_, .other (by decide) .nil, by decide, by decide, rfl, rfl⟩
    exact .cons (.plain (by decide) (by decide)) .nil
  exact ⟨by decide, hstray, ((split_of_form (d := ',') (by decide) _).2.2.2 6 hstray).1⟩

end Record
end Excerpt
