import Excerpt.Proofs.Record.RoundTrip

/-!
This module contains which records are written back as they were read: those in which a field is quoted only if it
has to be, and in which no field lacks quotes that the writer would give it.
-/

namespace Excerpt
namespace Record

/--
A field as it stands in a record, with quotes just where the writer puts them: around a value that holds the
delimiter, a quote or a line break.
-/
structure MinimallyQuoted (d : Char) (raw value : Text) : Prop where
  quoted : raw.head? = some '"' → d ∈ value ∨ '"' ∈ value ∨ '\n' ∈ value ∨ '\r' ∈ value
  plain : raw.head? ≠ some '"' → '"' ∉ raw ∧ '\n' ∉ raw ∧ '\r' ∉ raw

theorem QuotedBody.eq_doubleQuotes {body value : Text} (h : QuotedBody body value) : body = doubleQuotes value := by
  induction h with
  | nil => rfl
  | other hc _ ih => rw [doubleQuotes_cons_of_ne hc, ← ih]
  | pair _ ih => rw [doubleQuotes_cons_quote, ← ih]

section

variable {d : Char} {raw value line : Text} {raws fields : List Text}

theorem writeField_of_needsQuotes (h : d ∈ value ∨ '"' ∈ value ∨ '\n' ∈ value ∨ '\r' ∈ value) :
    writeField [d] value = '"' :: (doubleQuotes value ++ ['"']) := by
  rw [writeField, if_pos (needsQuotes_singleton.mpr h)]

theorem writeField_of_not_needsQuotes (h : ¬ (d ∈ value ∨ '"' ∈ value ∨ '\n' ∈ value ∨ '\r' ∈ value)) :
    writeField [d] value = value := by
  rw [writeField, if_neg (by rwa [needsQuotes_singleton])]

theorem RawField.eq_writeField_iff (h : RawField d raw value) :
    raw = writeField [d] value ↔ MinimallyQuoted d raw value := by
  by_cases hneeds : d ∈ value ∨ '"' ∈ value ∨ '\n' ∈ value ∨ '\r' ∈ value
  . -- The writer quotes the value, so the field is written back if it is quoted.
    rw [writeField_of_needsQuotes hneeds]
    cases h with
    | plain hquote hd =>
      constructor
      . intro heq
        rw [heq] at hquote
        exact absurd rfl hquote
      . intro hmin
        have hplain := hmin.plain hquote
        simp [hd, hplain] at hneeds
    | quoted h =>
      rw [h.eq_doubleQuotes]
      exact ⟨fun _ => ⟨fun _ => hneeds, fun hhead => absurd rfl hhead⟩, fun _ => rfl⟩
  . -- The writer leaves the value as it is, so the field is written back if it is not quoted.
    rw [writeField_of_not_needsQuotes hneeds]
    simp only [not_or] at hneeds
    cases h with
    | plain hquote => exact ⟨fun _ => ⟨fun hhead => absurd hhead hquote, fun _ => hneeds.2⟩, fun _ => rfl⟩
    | quoted h =>
      constructor
      . intro heq
        rw [← heq] at hneeds
        exact absurd List.mem_cons_self hneeds.2.1
      . intro hmin
        have hquoted := hmin.quoted rfl
        simp [hneeds] at hquoted

theorem Complete.fields_ne_nil (h : Complete d line raws fields) : fields ≠ [] := by
  intro hfields
  have hlength := h.rawFields.length_eq
  rw [hfields] at hlength
  exact h.raws_ne_nil (List.eq_nil_of_length_eq_zero hlength)

theorem Complete.write_eq_iff_raws_eq (h : Complete d line raws fields) (hd : d ≠ '"') :
    write [d] fields = line ↔ raws = fields.map (writeField [d]) := by
  constructor
  . intro heq
    have hwrite : Complete d (write [d] fields) (fields.map (writeField [d])) fields := complete_write h.fields_ne_nil
    rw [heq] at hwrite
    exact h.raws_unique hwrite hd
  . intro hraws
    rw [h.line_eq, hraws]
    rfl

theorem Complete.write_eq_iff (h : Complete d line raws fields) (hd : d ≠ '"') :
    write [d] fields = line ↔ List.Forall₂ (MinimallyQuoted d) raws fields := by
  rw [h.write_eq_iff_raws_eq hd, ← List.forall₂_eq_eq_eq, List.forall₂_map_right_iff]
  constructor
  . intro heq
    exact h.rawFields.mp (fun raw value hraw heq => hraw.eq_writeField_iff.mp heq) heq
  . intro hmin
    exact h.rawFields.mp (fun raw value hraw hmin => hraw.eq_writeField_iff.mpr hmin) hmin

end

theorem write_split_eq_iff {d : Char} {line : Text} {fields : List Text} (hd : d ≠ '"')
    (hsplit : split [d] line = .ok fields) :
    (∃ raws, Complete d line raws fields)
      ∧ ∀ raws, Complete d line raws fields →
          (write [d] fields = line ↔ List.Forall₂ (MinimallyQuoted d) raws fields) :=
  ⟨Complete.exists_of_split hd hsplit, fun _ h => h.write_eq_iff hd⟩

theorem write_split_eq_iff_comma :
    ',' ≠ '"'
      ∧ split [','] "\"a,b\",c".toList = .ok ["a,b".toList, ['c']]
      ∧ Complete ',' "\"a,b\",c".toList ["\"a,b\"".toList, ['c']] ["a,b".toList, ['c']]
      ∧ write [','] ["a,b".toList, ['c']] = "\"a,b\",c".toList := by
  have hbody : QuotedBody "a,b".toList "a,b".toList := .other (by decide) (.other (by decide) (.other (by decide) .nil))
  have hraws : Complete ',' "\"a,b\",c".toList ["\"a,b\"".toList, ['c']] ["a,b".toList, ['c']] :=
    (Complete.last (.plain (by decide) (by decide))).more (.quoted hbody)
  have hsplit := hraws.split_eq (by decide)
  refine ⟨by decide, hsplit, hraws, ?_⟩
  apply ((write_split_eq_iff (by decide) hsplit).2 _ hraws).mpr
  refine .cons ⟨fun _ => .inl (by decide), fun h => absurd rfl h⟩ (.cons ⟨fun h => ?_, fun _ => ?_⟩ .nil)
  . simp at h
  . decide

end Record
end Excerpt
