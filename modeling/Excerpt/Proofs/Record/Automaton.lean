import Excerpt.Proofs.Record.Grammar

/-!
This module contains an automaton that reads a record in one pass, character by character and without going back.
It divides every text into the same fields as `split`, and fails where `split` fails.
-/

namespace Excerpt

open Record

inductive Place
  | fieldStart
  | plain
  | quoted
  | afterQuote
  deriving DecidableEq, Repr

/--
What an automaton knows of the record at hand: the fields that are finished, the value of the next one so far, and
how many characters of the record it has read.
-/
structure Automaton where
  place : Place := .fieldStart
  fields : List Text := []
  field : Text := []
  column : Nat := 0
  deriving DecidableEq, Repr

namespace Automaton

def literal (a : Automaton) (place : Place) (c : Char) : Automaton where
  place := place
  fields := a.fields
  field := a.field ++ [c]
  column := a.column + 1

def skip (a : Automaton) (place : Place) : Automaton where
  place := place
  fields := a.fields
  field := a.field
  column := a.column + 1

def endField (a : Automaton) : Automaton where
  place := .fieldStart
  fields := a.fields ++ [a.field]
  field := []
  column := a.column + 1

def readChar (d : Char) (a : Automaton) (c : Char) : Except RecordError Automaton :=
  match a.place with
  | .fieldStart =>
    if c = '"' then .ok (a.skip .quoted)
    else if c = d then .ok a.endField
    else .ok (a.literal .plain c)
  | .plain =>
    if c = d then .ok a.endField else .ok (a.literal .plain c)
  | .quoted =>
    if c = '"' then .ok (a.skip .afterQuote) else .ok (a.literal .quoted c)
  | .afterQuote =>
    if c = '"' then .ok (a.literal .quoted c)
    else if c = d then .ok a.endField
    else .error (.strayAfterQuote (a.column + 1))

def readChars (d : Char) (a : Automaton) : Text → Except RecordError Automaton
  | [] => .ok a
  | c :: s =>
    match a.readChar d c with
    | .error e => .error e
    | .ok a => readChars d a s

def finish (a : Automaton) : Except RecordError (List Text) :=
  if a.place = .quoted then .error .unterminatedQuote else .ok (a.fields ++ [a.field])

def readText (d : Char) (a : Automaton) (s : Text) : Except RecordError (List Text) :=
  match a.readChars d s with
  | .error e => .error e
  | .ok a => a.finish

section

variable {d c : Char} {a b : Automaton} {s t : Text} {fields : List Text} {field raw value body : Text}
variable {place : Place} {column : Nat} {e : RecordError}

theorem readChars_cons_of_ok (h : a.readChar d c = .ok b) : a.readChars d (c :: s) = b.readChars d s := by
  simp only [readChars, h]

theorem readChars_append_of_ok (h : a.readChars d s = .ok b) : a.readChars d (s ++ t) = b.readChars d t := by
  induction s generalizing a with
  | nil =>
    rw [readChars, Except.ok.injEq] at h
    rw [h, List.nil_append]
  | cons c s ih =>
    rw [List.cons_append]
    cases hc : a.readChar d c with
    | error e => simp [readChars, hc] at h
    | ok a' =>
      rw [readChars_cons_of_ok hc] at h
      rw [readChars_cons_of_ok hc]
      exact ih h

theorem readText_append_of_ok (h : a.readChars d s = .ok b) : a.readText d (s ++ t) = b.readText d t := by
  unfold readText
  rw [readChars_append_of_ok h]

theorem readChars_plain (hs : d ∉ s) :
    readChars d ⟨.plain, fields, field, column⟩ s = .ok ⟨.plain, fields, field ++ s, column + s.length⟩ := by
  induction s generalizing field column with
  | nil => simp [readChars]
  | cons c s ih =>
    simp only [List.mem_cons, not_or] at hs
    have hc : readChar d ⟨.plain, fields, field, column⟩ c = .ok ⟨.plain, fields, field ++ [c], column + 1⟩ := by
      simp [readChar, literal, Ne.symm hs.1]
    rw [readChars_cons_of_ok hc, ih hs.2]
    simp
    omega

theorem readChars_body (h : QuotedBody body value) :
    readChars d ⟨.quoted, fields, field, column⟩ body
      = .ok ⟨.quoted, fields, field ++ value, column + body.length⟩ := by
  induction h generalizing field column with
  | nil => simp [readChars]
  | @other c body value hc h ih =>
    have hc : readChar d ⟨.quoted, fields, field, column⟩ c = .ok ⟨.quoted, fields, field ++ [c], column + 1⟩ := by
      simp [readChar, literal, hc]
    rw [readChars_cons_of_ok hc, ih]
    simp
    omega
  | @pair body value h ih =>
    have hfirst : readChar d ⟨.quoted, fields, field, column⟩ '"'
        = .ok ⟨.afterQuote, fields, field, column + 1⟩ := by
      simp [readChar, skip]
    have hsecond : readChar d ⟨.afterQuote, fields, field, column + 1⟩ '"'
        = .ok ⟨.quoted, fields, field ++ ['"'], column + 2⟩ := by
      simp [readChar, literal]
    rw [readChars_cons_of_ok hfirst, readChars_cons_of_ok hsecond, ih]
    simp
    omega

theorem readChars_unclosed (h : QuotedBody body value) :
    readChars d ⟨.fieldStart, fields, [], column⟩ ('"' :: body)
      = .ok ⟨.quoted, fields, value, column + body.length + 1⟩ := by
  have hopen : readChar d ⟨.fieldStart, fields, [], column⟩ '"' = .ok ⟨.quoted, fields, [], column + 1⟩ := by
    simp [readChar, skip]
  rw [readChars_cons_of_ok hopen, readChars_body h]
  simp
  omega

theorem readChars_closed (h : QuotedBody body value) :
    readChars d ⟨.fieldStart, fields, [], column⟩ ('"' :: (body ++ ['"']))
      = .ok ⟨.afterQuote, fields, value, column + body.length + 2⟩ := by
  rw [← List.cons_append, readChars_append_of_ok (readChars_unclosed h)]
  simp [readChars, readChar, skip]

theorem readChars_rawField (fields : List Text) (column : Nat) (h : RawField d raw value) :
    ∃ place, place ≠ .quoted
      ∧ readChars d ⟨.fieldStart, fields, [], column⟩ raw = .ok ⟨place, fields, value, column + raw.length⟩ := by
  cases h with
  | plain hquote hd =>
    cases raw with
    | nil => exact ⟨.fieldStart, by decide, rfl⟩
    | cons c raw =>
      simp only [List.mem_cons, not_or] at hd
      have hc : readChar d ⟨.fieldStart, fields, [], column⟩ c = .ok ⟨.plain, fields, [c], column + 1⟩ := by
        have hquote : c ≠ '"' := by simpa using hquote
        simp [readChar, literal, hquote, Ne.symm hd.1]
      refine ⟨.plain, by decide, ?_⟩
      rw [readChars_cons_of_ok hc, readChars_plain hd.2]
      simp
      omega
  | quoted h =>
    refine ⟨.afterQuote, by decide, ?_⟩
    rw [readChars_closed h]
    simp
    omega

theorem readChar_delimiter (hplace : place ≠ .quoted) (hd : d ≠ '"') :
    readChar d ⟨place, fields, field, column⟩ d = .ok ⟨.fieldStart, fields ++ [field], [], column + 1⟩ := by
  cases place with
  | quoted => exact absurd rfl hplace
  | fieldStart => simp [readChar, endField, hd]
  | plain => simp [readChar, endField]
  | afterQuote => simp [readChar, endField, hd]

theorem readText_eq_split (hd : d ≠ '"') :
    readText d ⟨.fieldStart, fields, [], column⟩ s
      = match Record.split [d] s with
        | .error e => .error (e.shift column)
        | .ok more => .ok (fields ++ more) := by
  induction s using fieldwise (d := d) generalizing fields column with
  | last raw value h =>
    obtain ⟨place, hplace, hread⟩ := readChars_rawField fields column h
    rw [h.split_eq]
    simp [readText, hread, finish, hplace]
  | unclosed body value h =>
    rw [h.split_eq_error]
    simp [readText, readChars_unclosed h, finish, RecordError.shift]
  | stray body value c rest h hc hquote =>
    have hstray : readText d ⟨.afterQuote, fields, value, column + body.length + 2⟩ (c :: rest)
        = .error (.strayAfterQuote (column + body.length + 3)) := by
      simp [readText, readChars, readChar, hc, hquote]
    have happend : '"' :: (body ++ '"' :: c :: rest) = '"' :: (body ++ ['"']) ++ c :: rest := by simp
    rw [h.split_stray hc hquote, happend, readText_append_of_ok (readChars_closed h), hstray]
    simp [RecordError.shift]
    omega
  | more raw value rest h ih =>
    obtain ⟨place, hplace, hread⟩ := readChars_rawField fields column h
    have hdelimiter : readText d ⟨place, fields, value, column + raw.length⟩ (d :: rest)
        = readText d ⟨.fieldStart, fields ++ [value], [], column + raw.length + 1⟩ rest := by
      simp only [readText, readChars_cons_of_ok (readChar_delimiter hplace hd)]
    rw [readText_append_of_ok hread, hdelimiter, ih, h.split_append hd]
    cases Record.split [d] rest with
    | error e => simp [Nat.add_assoc]
    | ok more => simp

theorem readText_empty (hd : d ≠ '"') : readText d {} s = Record.split [d] s := by
  rw [readText_eq_split hd]
  cases Record.split [d] s with
  | error e => simp
  | ok more => simp

theorem readChar_error (h : a.readChar d c = .error e) : e = .strayAfterQuote (a.column + 1) := by
  unfold readChar at h
  repeat' split at h
  all_goals simp_all

theorem readChars_error (h : a.readChars d s = .error e) : ∃ column, e = .strayAfterQuote column := by
  induction s generalizing a with
  | nil => simp [readChars] at h
  | cons c s ih =>
    cases hc : a.readChar d c with
    | error e' =>
      simp only [readChars, hc, Except.error.injEq] at h
      subst h
      exact ⟨_, readChar_error hc⟩
    | ok b =>
      rw [readChars_cons_of_ok hc] at h
      exact ih h

theorem readText_cases (d : Char) (a : Automaton) (s : Text) :
    (∃ b, a.readChars d s = .ok b ∧ b.place ≠ .quoted ∧ a.readText d s = .ok (b.fields ++ [b.field]))
      ∨ (∃ b, a.readChars d s = .ok b ∧ b.place = .quoted ∧ a.readText d s = .error .unterminatedQuote)
      ∨ ∃ column, a.readChars d s = .error (.strayAfterQuote column)
          ∧ a.readText d s = .error (.strayAfterQuote column) := by
  cases hs : a.readChars d s with
  | error e =>
    obtain ⟨column, rfl⟩ := readChars_error hs
    exact .inr (.inr ⟨column, rfl, by simp [readText, hs]⟩)
  | ok b =>
    by_cases hplace : b.place = .quoted
    . exact .inr (.inl ⟨b, rfl, hplace, by simp [readText, hs, finish, hplace]⟩)
    . exact .inl ⟨b, rfl, hplace, by simp [readText, hs, finish, hplace]⟩

end

end Automaton

end Excerpt
