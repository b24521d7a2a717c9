import Excerpt.Proofs.Record.Form

/-!
This module contains what becomes of a text that is read as a record when more text follows. A stray character stays
where it is, whatever follows. An open quote stays open until a quote follows, and one quote closes it. A complete
record, a delimiter and another text are read one after the other.
-/

namespace Excerpt
namespace Record

section

variable {d : Char} {line more body body' value value' : Text} {raws fields : List Text} {column : Nat}

theorem QuotedBody.append (h : QuotedBody body value) (h' : QuotedBody body' value') :
    QuotedBody (body ++ body') (value ++ value') := by
  induction h with
  | nil => exact h'
  | other hc _ ih => exact .other hc ih
  | pair _ ih => exact .pair ih

theorem QuotedBody.of_not_mem (h : '"' ∉ body) : QuotedBody body body := by
  induction body with
  | nil => exact .nil
  | cons c body ih =>
    simp only [List.mem_cons, not_or] at h
    exact .other (Ne.symm h.1) (ih h.2)

theorem Stray.append (h : Stray d line column) (more : Text) : Stray d (line ++ more) column := by
  obtain ⟨raws, fields, body, value, c, rest, hraws, hbody, hd, hquote, rfl, rfl⟩ := h
  exact ⟨raws, fields, body, value, c, rest ++ more, hraws, hbody, hd, hquote, by simp, rfl⟩

theorem Unclosed.append (h : Unclosed d line) (hmore : '"' ∉ more) : Unclosed d (line ++ more) := by
  obtain ⟨raws, fields, body, value, hraws, hbody, rfl⟩ := h
  exact ⟨raws, fields, body ++ more, value ++ more, hraws, hbody.append (.of_not_mem hmore), by simp⟩

theorem Unclosed.split_append_quote (h : Unclosed d line) (hd : d ≠ '"') :
    ∃ fields, split [d] (line ++ ['"']) = .ok fields := by
  obtain ⟨raws, fields, body, value, hraws, hbody, rfl⟩ := h
  have hclosed : split [d] ('"' :: (body ++ ['"'])) = .ok [value] := (RawField.quoted hbody).split_eq
  refine ⟨fields ++ [value], ?_⟩
  rw [List.append_assoc, List.cons_append, split_terminated_append hraws hd, hclosed]

theorem Complete.append_delimiter (h : Complete d line raws fields) : line ++ [d] = terminated d raws := by
  obtain ⟨hne, hraws, rfl⟩ := h
  induction hraws with
  | nil => exact absurd rfl hne
  | cons hraw hraws ih =>
    cases hraws with
    | nil => simp
    | cons =>
      rw [List.intercalate_cons_cons, List.append_assoc, ih (by simp)]
      simp

theorem Complete.split_append (h : Complete d line raws fields) (hd : d ≠ '"') (rest : Text) :
    split [d] (line ++ d :: rest)
      = match split [d] rest with
        | .error e => .error (e.shift (line.length + 1))
        | .ok more => .ok (fields ++ more) := by
  have hlength : (terminated d raws).length = line.length + 1 := by
    rw [← h.append_delimiter, List.length_append, List.length_singleton]
  rw [List.append_cons, h.append_delimiter, ← hlength]
  exact split_terminated_append h.rawFields hd

end

theorem split_append_of_error {d : Char} (hd : d ≠ '"') (t : Text) :
    (∀ column, split [d] t = .error (.strayAfterQuote column) →
        ∀ s, split [d] (t ++ s) = .error (.strayAfterQuote column))
      ∧ (split [d] t = .error .unterminatedQuote →
          (∀ s, '"' ∉ s → split [d] (t ++ s) = .error .unterminatedQuote)
            ∧ ∃ fields, split [d] (t ++ ['"']) = .ok fields) := by
  constructor
  . intro column hsplit s
    have hstray := Stray.of_split hd hsplit
    exact (hstray.append s).split_eq hd
  . intro hsplit
    have hunclosed := Unclosed.of_split hd hsplit
    constructor
    . intro s hs
      exact (hunclosed.append hs).split_eq hd
    . exact hunclosed.split_append_quote hd

theorem split_append_of_error_comma :
    ',' ≠ '"'
      ∧ split [','] "\"a\"x".toList = .error (.strayAfterQuote 4)
      ∧ split [','] ("\"a\"x".toList ++ "\",".toList) = .error (.strayAfterQuote 4)
      ∧ split [','] "a,\"b\"\"".toList = .error .unterminatedQuote
      ∧ '"' ∉ ",\n".toList
      ∧ split [','] ("a,\"b\"\"".toList ++ ",\n".toList) = .error .unterminatedQuote
      ∧ ∃ fields, split [','] ("a,\"b\"\"".toList ++ ['"']) = .ok fields := by
  have hstray : split [','] "\"a\"x".toList = .error (.strayAfterQuote 4) := by cbv
  have hunclosed : split [','] "a,\"b\"\"".toList = .error .unterminatedQuote := by cbv
  have hfinal := (split_append_of_error (d := ',') (by decide) _).1 4 hstray
  have hopen := (split_append_of_error (d := ',') (by decide) _).2 hunclosed
  exact ⟨by decide, hstray, hfinal _, hunclosed, by decide, hopen.1 _ (by decide), hopen.2⟩

theorem split_append_delimiter {d : Char} (hd : d ≠ '"') {t : Text} {fields : List Text}
    (ht : split [d] t = .ok fields) (s : Text) :
    ((∃ all, split [d] (t ++ d :: s) = .ok all) ↔ ∃ more, split [d] s = .ok more)
      ∧ (∀ more, split [d] s = .ok more → split [d] (t ++ d :: s) = .ok (fields ++ more))
      ∧ (split [d] s = .error .unterminatedQuote → split [d] (t ++ d :: s) = .error .unterminatedQuote)
      ∧ ∀ column, split [d] s = .error (.strayAfterQuote column) →
          split [d] (t ++ d :: s) = .error (.strayAfterQuote (column + t.length + 1)) := by
  obtain ⟨raws, h⟩ := Complete.exists_of_split hd ht
  have happend := h.split_append hd s
  refine ⟨?_, ?_, ?_, ?_⟩
  . rw [happend]
    cases split [d] s with
    | error e => simp
    | ok more => simp
  . intro more hs
    rw [happend, hs]
  . intro hs
    rw [happend, hs]
    rfl
  . intro column hs
    have hcolumn : t.length + 1 + column = column + t.length + 1 := by omega
    rw [happend, hs, ← hcolumn]
    rfl

theorem split_append_delimiter_comma :
    ',' ≠ '"'
      ∧ split [','] "a,".toList = .ok [['a'], []]
      ∧ split [','] "\"b\"x".toList = .error (.strayAfterQuote 4)
      ∧ split [','] ("a,".toList ++ ',' :: "\"b\"x".toList) = .error (.strayAfterQuote 7)
      ∧ split [','] [] = .ok [[]]
      ∧ split [','] ("a,".toList ++ [',']) = .ok [['a'], [], []] := by
  have ht : split [','] "a,".toList = .ok [['a'], []] := by cbv
  have hs : split [','] "\"b\"x".toList = .error (.strayAfterQuote 4) := by cbv
  have hnil : split [','] [] = .ok [[]] := by cbv
  have hwhole := (split_append_delimiter (by decide) ht "\"b\"x".toList).2.2.2 4 hs
  have hempty := (split_append_delimiter (by decide) ht []).2.1 _ hnil
  exact ⟨by decide, ht, hs, hwhole, hnil, hempty⟩

end Record
end Excerpt
