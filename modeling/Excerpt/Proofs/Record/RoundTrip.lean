import Excerpt.Proofs.Record.Form
import Excerpt.Record.Writer

/-!
This module contains the round trip of fields through a record: what is written is a complete record of the fields,
so it is split into them again.
-/

namespace Excerpt
namespace Record

theorem quotedBody_doubleQuotes (field : Text) : QuotedBody (doubleQuotes field) field := by
  induction field with
  | nil => exact .nil
  | cons c field ih =>
    by_cases hc : c = '"'
    . subst hc
      rw [doubleQuotes_cons_quote]
      exact .pair ih
    . rw [doubleQuotes_cons_of_ne hc]
      exact .other hc ih

theorem rawField_writeField (d : Char) (field : Text) : RawField d (writeField [d] field) field := by
  unfold writeField
  split
  . exact .quoted (quotedBody_doubleQuotes field)
  . next hquotes =>
    simp only [needsQuotes_singleton, not_or] at hquotes
    apply RawField.plain
    . intro hhead
      apply hquotes.2.1
      exact List.mem_of_head? hhead
    . exact hquotes.1

theorem write_singleton {d : Char} {field : Text} : write [d] [field] = writeField [d] field :=
  List.intercalate_singleton

theorem write_cons_cons {d : Char} {field next : Text} {fields : List Text} :
    write [d] (field :: next :: fields) = writeField [d] field ++ d :: write [d] (next :: fields) := by
  simp [write]

theorem complete_write {d : Char} {fields : List Text} (hne : fields ≠ []) :
    Complete d (write [d] fields) (fields.map (writeField [d])) fields where
  raws_ne_nil := by simpa using hne
  rawFields := by
    rw [List.forall₂_map_left_iff, List.forall₂_same]
    intro field _
    exact rawField_writeField d field
  line_eq := rfl

theorem split_write {d : Char} {fields : List Text} (hd : d ≠ '"') (hne : fields ≠ []) :
    split [d] (write [d] fields) = .ok fields := (complete_write hne).split_eq hd

theorem split_write_nil {d : Char} : split [d] (write [d] []) = .ok [[]] := by
  have hraw : RawField d [] [] := .plain (by simp) (by simp)
  exact hraw.split_eq

theorem split_write_and_write_inj {d : Char} (hd : d ≠ '"') :
    (∀ fields, fields ≠ [] → split [d] (write [d] fields) = .ok fields)
      ∧ ∀ fields fields', write [d] fields = write [d] fields' →
          fields = fields' ∨ (fields = [] ∧ fields' = [[]]) ∨ (fields = [[]] ∧ fields' = []) := by
  constructor
  . intro fields hne
    exact split_write hd hne
  . intro fields fields' heq
    have hsplit := congrArg (split [d]) heq
    cases fields with
    | nil =>
      cases fields' with
      | nil => exact .inl rfl
      | cons field' fields' =>
        rw [split_write_nil, split_write hd (by simp)] at hsplit
        exact .inr (.inl ⟨rfl, (Except.ok.inj hsplit).symm⟩)
    | cons field fields =>
      rw [split_write hd (by simp)] at hsplit
      cases fields' with
      | nil =>
        rw [split_write_nil] at hsplit
        exact .inr (.inr ⟨Except.ok.inj hsplit, rfl⟩)
      | cons field' fields' =>
        rw [split_write hd (by simp)] at hsplit
        exact .inl (Except.ok.inj hsplit)

theorem split_write_and_write_inj_comma :
    ',' ≠ '"'
      ∧ split [','] (write [','] [['a', ','], ['"'], [], ['\r', '\n']]) = .ok [['a', ','], ['"'], [], ['\r', '\n']] :=
  ⟨by decide, (split_write_and_write_inj (by decide)).1 _ (by simp)⟩

end Record
end Excerpt
