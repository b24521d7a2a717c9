import Excerpt.Proofs.Record.Extension

/-!
This module contains the division of a record into fields as a scan by positions, for any delimiter: a cursor that
goes over the text in two nested loops, one over the fields and one over the quotes inside of a quoted field. From
every position the scan gives what `split` makes of the rest of the text.
-/

namespace Excerpt

/--
The first position from `start` on at which `pattern` occurs. The empty pattern occurs at every position, and at the
end of the text.
-/
def Text.indexFrom (pattern s : Text) (start : Nat) : Option Nat :=
  (List.range' start (s.length + 1 - start)).find? fun i => pattern.isPrefixOf (s.drop i)

theorem Text.indexFrom_eq_breakOn (pattern : Text) {s : Text} {start : Nat} (h : start ≤ s.length) :
    indexFrom pattern s start = (breakOn pattern (s.drop start)).map fun found => start + found.1.length := by
  induction hrest : s.drop start generalizing start with
  | nil =>
    have hlength : s.length + 1 - start = 1 := by
      have := List.drop_eq_nil_iff.mp hrest
      omega
    rw [indexFrom, hlength, List.range'_one, List.find?_singleton, hrest, breakOn]
    by_cases hpattern : pattern = []
    . simp [hpattern]
    . simp [hpattern]
  | cons c rest ih =>
    have hlt : start < s.length := by
      have := congrArg List.length hrest
      simp only [List.length_drop, List.length_cons] at this
      omega
    have hnext : s.drop (start + 1) = rest := by rw [← List.tail_drop, hrest, List.tail_cons]
    have hlength : s.length + 1 - start = s.length + 1 - (start + 1) + 1 := by omega
    have ih := ih hlt hnext
    rw [indexFrom] at ih
    rw [indexFrom, hlength, List.range'_succ, List.find?_cons, hrest, breakOn]
    cases pattern.isPrefixOf (c :: rest) with
    | true => simp
    | false =>
      simp only [ih]
      cases breakOn pattern rest with
      | none => simp
      | some found =>
        simp
        omega

namespace Record

/--
Which loop a scan is in: at the start of a field it begins a round of the loop over the fields; inside of a quoted
field, of which `value` has been read, it begins a round of the loop over the quotes, until it stands behind the
closing quote of a field with a value.
-/
inductive Stage
  | field
  | quoted (value : Text)
  | closed (value : Text)
  deriving DecidableEq, Repr

structure Cursor where
  position : Nat := 0
  fields : List Text := []
  stage : Stage := .field
  deriving DecidableEq, Repr

inductive Move
  | goOn (c : Cursor)
  | stop (result : Except RecordError (List Text))
  deriving Repr

namespace Cursor

/--
Goes on behind a field that ends at a position: one character is stepped over, unless the text ends there. If it ends
behind that character, one more field is left, which is empty.
-/
def leaveField (text : Text) (position : Nat) (fields : List Text) : Move :=
  if text.length ≤ position then
    .stop (.ok fields)
  else if position + 1 = text.length then
    .stop (.ok (fields ++ [[]]))
  else
    .goOn ⟨position + 1, fields, .field⟩

def move (delimiter text : Text) (c : Cursor) : Move :=
  match c.stage with
  | .field =>
    if text[c.position]? = some '"' then
      .goOn ⟨c.position + 1, c.fields, .quoted []⟩
    else
      let stop := (Text.indexFrom delimiter text c.position).getD text.length
      leaveField text stop (c.fields ++ [text.extract c.position stop])
  | .quoted value =>
    match Text.indexFrom ['"'] text c.position with
    | none => .stop (.error .unterminatedQuote)
    | some close =>
      let value := value ++ text.extract c.position close
      if text[close + 1]? = some '"' then
        .goOn ⟨close + 2, c.fields, .quoted (value ++ ['"'])⟩
      else
        .goOn ⟨close + 1, c.fields, .closed value⟩
  | .closed value =>
    match text[c.position]? with
    | none => leaveField text c.position (c.fields ++ [value])
    | some next =>
      if [next] = delimiter then
        leaveField text c.position (c.fields ++ [value])
      else
        .stop (.error (.strayAfterQuote (c.position + 1)))

end Cursor

section

variable {delimiter : Text}

@[simp]
theorem split_nil : split delimiter [] = .ok [[]] := by
  apply split_of_last
  rw [firstField_of_head_ne (by simp), Text.breakOn]
  by_cases hdelimiter : delimiter = []
  . rw [if_pos hdelimiter]
  . rw [if_neg hdelimiter]

theorem QuotedBody.closeQuote_append_eq {body value s : Text} (h : QuotedBody body value) :
    closeQuote (body ++ s) = (closeQuote s).map fun (more, rest) => (value ++ more, rest) := by
  induction h with
  | nil => simp
  | other hc _ ih =>
    rw [List.cons_append, closeQuote_cons_of_ne hc, ih]
    cases closeQuote s <;> rfl
  | pair _ ih =>
    rw [List.cons_append, List.cons_append, closeQuote_pair, ih]
    cases closeQuote s <;> rfl

end

/--
What `split` makes of the rest of a text, put behind some fields and seen from the start of the text.
-/
def resume (fields : List Text) (position : Nat) : Except RecordError (List Text) → Except RecordError (List Text)
  | .error e => .error (e.shift position)
  | .ok more => .ok (fields ++ more)

def resumeBehind (delimiter : Text) (fields : List Text) (position : Nat) :
    Text → Except RecordError (List Text)
  | [] => .ok fields
  | _ :: rest => resume fields (position + 1) (split delimiter rest)

def resumeClosed (delimiter : Text) (fields : List Text) (position : Nat) :
    Text → Except RecordError (List Text)
  | [] => .ok fields
  | c :: rest =>
    if [c] = delimiter then
      resumeBehind delimiter fields position (c :: rest)
    else
      .error (.strayAfterQuote (position + 1))

def Cursor.outcome (delimiter text : Text) (c : Cursor) : Except RecordError (List Text) :=
  let s := text.drop c.position
  match c.stage with
  | .field => resume c.fields c.position (split delimiter s)
  | .quoted value =>
    match closeQuote s with
    | none => .error .unterminatedQuote
    | some (more, rest) =>
      resumeClosed delimiter (c.fields ++ [value ++ more]) (c.position + (s.length - rest.length)) rest
  | .closed value => resumeClosed delimiter (c.fields ++ [value]) c.position s

def Move.outcome (delimiter text : Text) : Move → Except RecordError (List Text)
  | .goOn c => c.outcome delimiter text
  | .stop result => result

section

variable {delimiter text s body value : Text} {fields : List Text} {position : Nat}

theorem resume_split :
    resume fields position (split delimiter s)
      = match firstField delimiter s with
        | .error e => .error (e.shift position)
        | .ok (value, rest) =>
          resumeBehind delimiter (fields ++ [value]) (position + (s.length - rest.length)) rest := by
  cases h : firstField delimiter s with
  | error e => simp only [split_of_error h, resume]
  | ok found =>
    obtain ⟨value, rest⟩ := found
    cases rest with
    | nil => simp only [split_of_last h, resume, resumeBehind]
    | cons c rest =>
      have hlength := length_le_of_firstField h
      simp only [List.length_cons] at hlength
      have hposition : position + (s.length - (c :: rest).length) + 1 = position + (s.length - rest.length) := by
        simp only [List.length_cons]
        omega
      simp only [split_of_more h, resumeBehind, hposition]
      cases split delimiter rest with
      | error e => simp only [resume, RecordError.shift_shift]
      | ok more => simp only [resume, List.append_assoc, List.singleton_append]

theorem resume_split_of_head_ne (h : s.head? ≠ some '"') :
    resume fields position (split delimiter s)
      = match Text.breakOn delimiter s with
        | none => .ok (fields ++ [s])
        | some (value, rest) => resumeBehind delimiter (fields ++ [value]) (position + value.length) rest := by
  rw [resume_split, firstField_of_head_ne h]
  cases hbreak : Text.breakOn delimiter s with
  | none => simp only [resumeBehind]
  | some found =>
    obtain ⟨value, rest⟩ := found
    have hlength : s.length - rest.length = value.length := by
      rw [← Text.append_of_breakOn hbreak]
      simp
    simp only [hlength]

theorem resume_split_quote :
    resume fields position (split delimiter ('"' :: body))
      = match closeQuote body with
        | none => .error .unterminatedQuote
        | some (value, rest) =>
          resumeClosed delimiter (fields ++ [value]) (position + 1 + (body.length - rest.length)) rest := by
  rw [resume_split, firstField]
  cases hclose : closeQuote body with
  | none => rfl
  | some found =>
    obtain ⟨value, rest⟩ := found
    have hlength := length_le_of_closeQuote hclose
    cases rest with
    | nil => rfl
    | cons c rest =>
      simp only [List.length_cons] at hlength ⊢
      have hposition : position + (body.length + 1 - (rest.length + 1))
          = position + 1 + (body.length - (rest.length + 1)) := by
        omega
      have hcolumn : position + (body.length + 1 - rest.length)
          = position + 1 + (body.length - (rest.length + 1)) + 1 := by
        omega
      by_cases hc : [c] = delimiter
      . simp only [if_pos hc, resumeClosed, List.length_cons, hposition]
      . simp only [if_neg hc, resumeClosed, RecordError.shift, hcolumn]

namespace Cursor

theorem outcome_field (hs : text.drop position = s) :
    outcome delimiter text ⟨position, fields, .field⟩ = resume fields position (split delimiter s) := by
  simp only [outcome, hs]

theorem outcome_quoted (hs : text.drop position = s) :
    outcome delimiter text ⟨position, fields, .quoted value⟩
      = match closeQuote s with
        | none => .error .unterminatedQuote
        | some (more, rest) =>
          resumeClosed delimiter (fields ++ [value ++ more]) (position + (s.length - rest.length)) rest := by
  simp only [outcome, hs]

theorem outcome_closed (hs : text.drop position = s) :
    outcome delimiter text ⟨position, fields, .closed value⟩
      = resumeClosed delimiter (fields ++ [value]) position s := by
  simp only [outcome, hs]

theorem outcome_leaveField (hs : text.drop position = s) :
    (leaveField text position fields).outcome delimiter text = resumeBehind delimiter fields position s := by
  subst hs
  by_cases hend : text.length ≤ position
  . rw [leaveField, if_pos hend, List.drop_eq_nil_of_le hend]
    rfl
  . have hdrop := List.drop_eq_getElem_cons (Nat.lt_of_not_le hend)
    rw [leaveField, if_neg hend, hdrop, resumeBehind]
    by_cases hlast : position + 1 = text.length
    . rw [if_pos hlast, List.drop_eq_nil_of_le (Nat.le_of_eq hlast.symm), split_nil]
      rfl
    . rw [if_neg hlast]
      rfl

theorem extract_of_drop {part rest : Text} (hs : text.drop position = part ++ rest) :
    text.extract position (position + part.length) = part := by
  rw [List.extract_eq_take_drop, hs, Nat.add_sub_cancel_left, List.take_left]

theorem drop_add_length {part rest : Text} (hs : text.drop position = part ++ rest) :
    text.drop (position + part.length) = rest := by
  rw [← List.drop_drop, hs, List.drop_left]

theorem outcome_move_field (h : position ≤ text.length) :
    (move delimiter text ⟨position, fields, .field⟩).outcome delimiter text
      = outcome delimiter text ⟨position, fields, .field⟩ := by
  rw [outcome_field rfl]
  by_cases hquote : text[position]? = some '"'
  . have hmove : move delimiter text ⟨position, fields, .field⟩ = .goOn ⟨position + 1, fields, .quoted []⟩ := by
      simp only [move, hquote, if_true]
    have hs : text.drop position = '"' :: text.drop (position + 1) := by
      obtain ⟨hlt, hget⟩ := List.getElem?_eq_some_iff.mp hquote
      rw [List.drop_eq_getElem_cons hlt, hget]
    rw [hmove, Move.outcome, outcome_quoted rfl, hs, resume_split_quote]
    rfl
  . have hhead : (text.drop position).head? ≠ some '"' := by rwa [List.head?_drop]
    have hfind := Text.indexFrom_eq_breakOn delimiter h
    rw [resume_split_of_head_ne hhead]
    cases hbreak : Text.breakOn delimiter (text.drop position) with
    | none =>
      rw [hbreak, Option.map_none] at hfind
      have hextract : text.extract position text.length = text.drop position := by
        rw [List.extract_eq_take_drop, ← List.length_drop, List.take_length]
      have hmove : move delimiter text ⟨position, fields, .field⟩
          = leaveField text text.length (fields ++ [text.drop position]) := by
        simp only [move, hquote, if_false, hfind, Option.getD_none, hextract]
      rw [hmove, outcome_leaveField List.drop_length]
      rfl
    | some found =>
      obtain ⟨part, rest⟩ := found
      rw [hbreak, Option.map_some] at hfind
      have hs := (Text.append_of_breakOn hbreak).symm
      have hmove : move delimiter text ⟨position, fields, .field⟩
          = leaveField text (position + part.length) (fields ++ [part]) := by
        simp only [move, hquote, if_false, hfind, Option.getD_some, extract_of_drop hs]
      rw [hmove, outcome_leaveField (drop_add_length hs)]

section

variable {part rest : Text}

theorem indexFrom_quote (h : position ≤ text.length) (hs : text.drop position = part ++ '"' :: rest)
    (hpart : '"' ∉ part) : Text.indexFrom ['"'] text position = some (position + part.length) := by
  rw [Text.indexFrom_eq_breakOn _ h, hs, Text.breakOn_singleton_append hpart]
  rfl

theorem getElem?_behind_quote (hs : text.drop position = part ++ '"' :: rest) :
    text[position + part.length + 1]? = rest.head? := by
  rw [← List.head?_drop, ← List.tail_drop, drop_add_length hs, List.tail_cons]

theorem move_quoted_of_pair (h : position ≤ text.length) (hs : text.drop position = part ++ '"' :: '"' :: rest)
    (hpart : '"' ∉ part) :
    move delimiter text ⟨position, fields, .quoted value⟩
      = .goOn ⟨position + part.length + 2, fields, .quoted (value ++ part ++ ['"'])⟩ := by
  simp only [move, indexFrom_quote h hs hpart, getElem?_behind_quote hs, extract_of_drop hs, List.head?_cons, if_true]

theorem move_quoted_of_closed (h : position ≤ text.length) (hs : text.drop position = part ++ '"' :: rest)
    (hpart : '"' ∉ part) (hrest : rest.head? ≠ some '"') :
    move delimiter text ⟨position, fields, .quoted value⟩
      = .goOn ⟨position + part.length + 1, fields, .closed (value ++ part)⟩ := by
  simp only [move, indexFrom_quote h hs hpart, getElem?_behind_quote hs, extract_of_drop hs, if_neg hrest]

theorem move_quoted_of_unclosed (h : position ≤ text.length) (hs : '"' ∉ text.drop position) :
    move delimiter text ⟨position, fields, .quoted value⟩ = .stop (.error .unterminatedQuote) := by
  simp only [move, Text.indexFrom_eq_breakOn _ h, Text.breakOn_singleton_of_not_mem hs, Option.map_none]

theorem outcome_quoted_of_pair (hs : text.drop position = part ++ '"' :: '"' :: rest) (hpart : '"' ∉ part) :
    outcome delimiter text ⟨position + part.length + 2, fields, .quoted (value ++ part ++ ['"'])⟩
      = outcome delimiter text ⟨position, fields, .quoted value⟩ := by
  have hnext : text.drop (position + part.length + 2) = rest := by
    rw [← List.drop_drop, drop_add_length hs]
    rfl
  rw [outcome_quoted hnext, outcome_quoted hs, (QuotedBody.of_not_mem hpart).closeQuote_append_eq, closeQuote_pair]
  cases hclose : closeQuote rest with
  | none => rfl
  | some found =>
    obtain ⟨more, behind⟩ := found
    have hlength := length_le_of_closeQuote hclose
    have hposition : position + part.length + 2 + (rest.length - behind.length)
        = position + ((part ++ '"' :: '"' :: rest).length - behind.length) := by
      simp only [List.length_append, List.length_cons]
      omega
    simp only [Option.map_some, hposition, List.append_assoc, List.singleton_append]

theorem outcome_closed_of_quoted (hs : text.drop position = part ++ '"' :: rest) (hpart : '"' ∉ part)
    (hrest : rest.head? ≠ some '"') :
    outcome delimiter text ⟨position + part.length + 1, fields, .closed (value ++ part)⟩
      = outcome delimiter text ⟨position, fields, .quoted value⟩ := by
  have hnext : text.drop (position + part.length + 1) = rest := by
    rw [← List.tail_drop, drop_add_length hs, List.tail_cons]
  have hposition : position + ((part ++ '"' :: rest).length - rest.length) = position + part.length + 1 := by
    simp only [List.length_append, List.length_cons]
    omega
  rw [outcome_closed hnext, outcome_quoted hs, (QuotedBody.of_not_mem hpart).closeQuote_append hrest]
  simp only [hposition]

end

theorem outcome_move_quoted (h : position ≤ text.length) :
    (move delimiter text ⟨position, fields, .quoted value⟩).outcome delimiter text
      = outcome delimiter text ⟨position, fields, .quoted value⟩ := by
  by_cases hquote : '"' ∈ text.drop position
  . obtain ⟨part, rest, hs, hpart⟩ := List.eq_append_cons_of_mem hquote
    by_cases hpair : rest.head? = some '"'
    . obtain ⟨rest, rfl⟩ := List.head?_eq_some_iff.mp hpair
      rw [move_quoted_of_pair h hs hpart]
      exact outcome_quoted_of_pair hs hpart
    . rw [move_quoted_of_closed h hs hpart hpair]
      exact outcome_closed_of_quoted hs hpart hpair
  . rw [move_quoted_of_unclosed h hquote, outcome_quoted rfl, (QuotedBody.of_not_mem hquote).closeQuote_eq_none]
    rfl

theorem outcome_move_closed :
    (move delimiter text ⟨position, fields, .closed value⟩).outcome delimiter text
      = outcome delimiter text ⟨position, fields, .closed value⟩ := by
  rw [outcome_closed rfl]
  have hhead : text[position]? = (text.drop position).head? := List.head?_drop.symm
  cases hs : text.drop position with
  | nil =>
    have hmove : move delimiter text ⟨position, fields, .closed value⟩
        = leaveField text position (fields ++ [value]) := by
      simp [move, hhead, hs]
    rw [hmove, outcome_leaveField hs]
    rfl
  | cons c rest =>
    by_cases hc : [c] = delimiter
    . have hmove : move delimiter text ⟨position, fields, .closed value⟩
          = leaveField text position (fields ++ [value]) := by
        simp [move, hhead, hs, hc]
      rw [hmove, outcome_leaveField hs, resumeClosed, if_pos hc]
    . have hmove : move delimiter text ⟨position, fields, .closed value⟩
          = .stop (.error (.strayAfterQuote (position + 1))) := by
        simp [move, hhead, hs, hc]
      rw [hmove, resumeClosed, if_neg hc]
      rfl

theorem outcome_move (delimiter : Text) {c : Cursor} (h : c.position ≤ text.length) :
    (c.move delimiter text).outcome delimiter text = c.outcome delimiter text := by
  obtain ⟨position, fields, stage⟩ := c
  cases stage with
  | field => exact outcome_move_field h
  | quoted value => exact outcome_move_quoted h
  | closed value => exact outcome_move_closed

theorem outcome_start : outcome delimiter text {} = split delimiter text := by
  rw [outcome_field List.drop_zero]
  cases split delimiter text with
  | error e => rw [resume, RecordError.shift_zero]
  | ok more => rfl

end Cursor

end

end Record
end Excerpt
