import Excerpt.Proofs.CommandLine.Values
import Excerpt.Proofs.Stream.LineNumber

/-!
This module contains which arguments give a configuration, and what can go wrong with one that they give: nothing but a
malformed record. So what is checked before the work begins is all that the work relies on.
-/

namespace Excerpt

theorem Utf8.length_encode_eq_one {s : Text} : (encode s).length = 1 ↔ ∃ c : Char, s = [c] ∧ c.toNat < 0x80 := by
  have hsize : ∀ c : Char, (String.utf8EncodeChar c).length = c.utf8Size := String.length_utf8EncodeChar
  have hascii : ∀ c : Char, c.utf8Size = 1 ↔ c.toNat < 0x80 := by
    intro c
    rw [Char.utf8Size_eq_one_iff, UInt32.le_iff_toNat_le]
    exact Nat.lt_succ_iff.symm
  constructor
  . intro h
    match s with
    | [] => simp at h
    | [c] =>
      rw [encode_cons, encode_nil, List.append_nil, hsize, hascii] at h
      exact ⟨c, rfl, h⟩
    | c :: c' :: s =>
      have hc := c.utf8Size_pos
      have hc' := c'.utf8Size_pos
      rw [encode_cons, encode_cons, List.length_append, List.length_append, hsize, hsize] at h
      omega
  . rintro ⟨c, rfl, hc⟩
    rw [encode_cons, encode_nil, List.append_nil, hsize, hascii]
    exact hc

theorem checkDelimiter_eq_ok_iff {delimiter checked : Text} :
    checkDelimiter delimiter = .ok checked
      ↔ checked = delimiter
        ∧ ∃ d : Char, delimiter = [d] ∧ d.toNat < 0x80 ∧ d ≠ '"' ∧ d ≠ '\n' ∧ d ≠ '\r' := by
  unfold checkDelimiter
  split
  . next hlength =>
    rw [ne_eq, Utf8.length_encode_eq_one] at hlength
    refine iff_of_false (by simp) ?_
    rintro ⟨_, d, rfl, hd, _⟩
    exact hlength ⟨d, rfl, hd⟩
  . next hlength =>
    rw [ne_eq, Decidable.not_not, Utf8.length_encode_eq_one] at hlength
    obtain ⟨c, rfl, hc⟩ := hlength
    have hbreaks : [c] ∈ [['"'], ['\n'], ['\r']] ↔ ¬ (c ≠ '"' ∧ c ≠ '\n' ∧ c ≠ '\r') := by
      simp [or_iff_not_imp_left]
    split
    . next hbad =>
      refine iff_of_false (by simp) ?_
      rintro ⟨_, d, heq, _, hgood⟩
      cases heq
      exact hbreaks.mp hbad hgood
    . next hgood =>
      rw [hbreaks, Decidable.not_not] at hgood
      rw [Except.ok.injEq, eq_comm]
      exact (and_iff_left ⟨c, rfl, hc, hgood⟩).symm

namespace Arguments

theorem configure_ofList_eq_ok_iff {kind : ListKind} {list delimiter : Text} {files : List Text}
    {configuration : Configuration} :
    (ofList kind (.text list) (.text delimiter) files).configure = .ok configuration
      ↔ ∃ selection, Selection.parse list = .ok selection
        ∧ (kind = .fields → ∃ d : Char, delimiter = [d] ∧ d.toNat < 0x80 ∧ d ≠ '"' ∧ d ≠ '\n' ∧ d ≠ '\r')
        ∧ configuration = ⟨⟨kind.mode delimiter, selection⟩, files⟩ := by
  cases hlist : Selection.parse list with
  | error e =>
    rw [configure_of_selection_error hlist]
    simp
  | ok selection =>
    by_cases hkind : kind = .fields
    . subst hkind
      rw [configure_of_fields hlist]
      cases hdelimiter : checkDelimiter delimiter with
      | error e =>
        refine iff_of_false (by simp) ?_
        rintro ⟨_, _, hgood, _⟩
        cases hdelimiter.symm.trans (checkDelimiter_eq_ok_iff.mpr ⟨rfl, hgood rfl⟩)
      | ok d =>
        obtain ⟨rfl, hgood⟩ := checkDelimiter_eq_ok_iff.mp hdelimiter
        constructor
        . intro h
          exact ⟨selection, rfl, fun _ => hgood, (Except.ok.inj h).symm⟩
        . rintro ⟨_, heq, _, rfl⟩
          cases heq
          rfl
    . rw [configure_of_ne_fields hkind hlist _ delimiter]
      constructor
      . intro h
        exact ⟨selection, rfl, (absurd · hkind), (Except.ok.inj h).symm⟩
      . rintro ⟨_, heq, _, rfl⟩
        cases heq
        rfl

theorem configure_ofList (kind : ListKind) (list delimiter : Text) (files : List Text) :
    let args := ofList kind (.text list) (.text delimiter) files
    ((∃ configuration, args.configure = .ok configuration) ↔
        (∃ selection, Selection.parse list = .ok selection)
          ∧ (kind = .fields →
            ∃ d : Char, delimiter = [d] ∧ d.toNat < 0x80 ∧ d ≠ '"' ∧ d ≠ '\n' ∧ d ≠ '\r'))
      ∧ (∀ e, Selection.parse list = .error e → args.configure = .error (.selection e))
      ∧ (kind ≠ .fields → ∀ other, (ofList kind (.text list) other files).configure = args.configure)
      ∧ ∀ configuration, args.configure = .ok configuration →
          (∃ selection, Selection.parse list = .ok selection
            ∧ configuration = ⟨⟨kind.mode delimiter, selection⟩, files⟩)
          ∧ ∀ data,
            let t := configuration.extraction.transfer (.ofBytes data) {}
            (kind ≠ .fields → t.stop = none)
              ∧ ∀ stop, t.stop = some stop →
                ∃ e : LineError, stop = .malformed e ∧ 1 ≤ e.line ∧ e.line ≤ (Line.split data).length
                  ∧ (e.message
                      = "line ".toList ++ Text.ofNat e.line ++ ": ".toList ++ "unterminated quoted field".toList
                    ∨ ∃ column, e.message
                      = "line ".toList ++ Text.ofNat e.line ++ ": ".toList
                        ++ ("expected delimiter after closing quote at column ".toList ++ Text.ofNat column)) := by
  intro args
  refine ⟨?_, fun e he => configure_of_selection_error he _, ?_, ?_⟩
  . constructor
    . rintro ⟨configuration, h⟩
      obtain ⟨selection, hlist, hdelimiter, _⟩ := configure_ofList_eq_ok_iff.mp h
      exact ⟨⟨selection, hlist⟩, hdelimiter⟩
    . rintro ⟨⟨selection, hlist⟩, hdelimiter⟩
      exact ⟨_, configure_ofList_eq_ok_iff.mpr ⟨selection, hlist, hdelimiter, rfl⟩⟩
  . intro hkind other
    cases hlist : Selection.parse list with
    | error e => rw [configure_of_selection_error hlist, configure_of_selection_error hlist]
    | ok selection =>
      rw [configure_of_ne_fields hkind hlist other delimiter, configure_of_ne_fields hkind hlist _ delimiter]
  . intro configuration h
    obtain ⟨selection, hlist, _, rfl⟩ := configure_ofList_eq_ok_iff.mp h
    refine ⟨⟨selection, hlist, rfl⟩, ?_⟩
    intro data t
    have hquiet : kind ≠ .fields → t.stop = none := by
      intro hkind
      apply Extraction.stop_eq_none
      cases kind with
      | bytes => exact .inl rfl
      | chars => exact .inr rfl
      | fields => exact absurd rfl hkind
    refine ⟨hquiet, ?_⟩
    intro stop hstop
    cases kind with
    | bytes => cases (hquiet nofun).symm.trans hstop
    | chars => cases (hquiet nofun).symm.trans hstop
    | fields =>
      obtain ⟨e, rfl, hone, hle⟩ := Extraction.stop_fields hstop
      refine ⟨e, rfl, hone, hle, ?_⟩
      obtain ⟨line, error⟩ := e
      cases error with
      | unterminatedQuote => exact .inl rfl
      | strayAfterQuote column => exact .inr ⟨column, rfl⟩

end Arguments

end Excerpt
