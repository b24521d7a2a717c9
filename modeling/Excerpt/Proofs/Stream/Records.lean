import Excerpt.Proofs.Record.Reading
import Excerpt.Proofs.Stream.Faultless

/-!
This module contains transfers in field mode. What is written for a stream is what is extracted from the text of each
record on its own, up to the first record that cannot be split, and nothing behind the lines of that record is read.
-/

namespace Excerpt
namespace Extraction

open Record

variable {delimiter : Text} {selection : Selection} {reader last : Reader} {lines front back : List Bytes}
variable {records : List Record} {n : Nat} {e : Option RecordError}

theorem Takes.of_reads (selection : Selection)
    (h : Reader.Reads delimiter reader (lines.map fun line => Utf8.decode (Line.chomp line)) records last) :
    Takes ⟨.fields delimiter, selection⟩ reader lines
      (records.map fun record => selectFields delimiter selection record.fields ++ ['\n']) last := by
  generalize htexts : lines.map (fun line => Utf8.decode (Line.chomp line)) = texts at h
  induction h generalizing lines with
  | nil =>
    rw [List.map_eq_nil_iff] at htexts
    subst htexts
    exact .nil
  | @cons reader next last text texts record records hfeed _ ih =>
    obtain ⟨line, lines, rfl, rfl, hmore⟩ := List.map_eq_cons_iff.mp htexts
    have htakes := Takes.cons (feed_fields_of_ok selection hfeed) (ih hmore)
    cases record with
    | none => exact htakes
    | some record => exact htakes

theorem go_remainder
    (h : Remainder delimiter (front.map fun line => Utf8.decode (Line.chomp line))
      (back.map fun line => Utf8.decode (Line.chomp line)) e) :
    transfer.go ⟨.fields delimiter, selection⟩ (.behind n []) (front ++ back) none {}
      = ⟨[], e.map fun e => .malformed ⟨n + 1, e⟩, ⟨back, none⟩, {}⟩ := by
  generalize hfront : front.map (fun line => Utf8.decode (Line.chomp line)) = last at h
  generalize hback : back.map (fun line => Utf8.decode (Line.chomp line)) = ignored at h
  cases h with
  | none =>
    rw [List.map_eq_nil_iff] at hfront hback
    subst hfront hback
    exact go_nil
  | pending hne hpending =>
    rw [List.map_eq_nil_iff] at hback
    subst hfront hback
    have hreads : Reader.Reads delimiter (.behind n []) _ [] (.behind n _) := .of_pending hpending
    have htakes := Takes.of_reads selection hreads
    rw [List.append_nil, htakes.go_eq, List.nil_append, Reader.behind_of_ne_nil hne]
    rfl
  | malformed hlast he =>
    obtain ⟨part, text, rfl, hpending⟩ := hlast.exists_pending
    obtain ⟨front, rest, rfl, rfl, hrest⟩ := List.map_eq_append_iff.mp hfront
    obtain ⟨line, _, rfl, rfl, hnil⟩ := List.map_eq_cons_iff.mp hrest
    rw [List.map_eq_nil_iff] at hnil
    subst hnil
    have hreads : Reader.Reads delimiter (.behind n []) _ [] (.behind n _) := .of_pending hpending
    have htakes := Takes.of_reads selection hreads
    have hstop := feed_fields_of_error selection (Reader.feed_behind_of_error (n := n) he hlast.not_leavesOpen)
    rw [List.append_assoc, List.singleton_append]
    exact htakes.go_stop hstop

theorem ok_writes_of_records {groups : List (List Text)} {number : Nat → Nat}
    (h : records.map (fun record => (record.line, Except.ok record.fields))
      = groups.mapIdx fun k group => (number k, split delimiter (Text.ofLines group))) :
    (records.map fun record => selectFields delimiter selection record.fields ++ ['\n']).map Except.ok
      = groups.map fun group =>
          (ofText ⟨.fields delimiter, selection⟩ (Text.ofLines group)).map (· ++ ['\n']) := by
  induction records generalizing groups number with
  | nil =>
    have hgroups : groups = [] := by simpa using h.symm
    rw [hgroups]
    rfl
  | cons record records ih =>
    cases groups with
    | nil => simp at h
    | cons group groups =>
      simp only [List.map_cons, List.mapIdx_cons, List.cons.injEq, Prod.mk.injEq] at h
      obtain ⟨⟨_, hsplit⟩, hmore⟩ := h
      rw [List.map_cons, List.map_cons, List.map_cons, ih hmore]
      simp only [ofText, ← hsplit, Except.map]

theorem transfer_fields_grouping (delimiter : Text) (selection : Selection) (data : Bytes) :
    (∃ groups last ignored e, Grouping delimiter (Line.texts data) groups last ignored e)
      ∧ (∀ groups last ignored e, Grouping delimiter (Line.texts data) groups last ignored e →
          let x : Extraction := ⟨.fields delimiter, selection⟩
          let t := x.transfer (.ofBytes data) {}
          t.writes.map Except.ok
              = groups.map (fun group => (x.ofText (Text.ofLines group)).map (· ++ ['\n']))
            ∧ t.stop = e.map (fun e => .malformed ⟨groups.flatten.length + 1, e⟩)
            ∧ ∃ read rest,
                data = read ++ rest
                  ∧ t.source = .ofBytes rest
                  ∧ Line.texts read = groups.flatten ++ last
                  ∧ Line.texts rest = ignored
                  ∧ (rest ≠ [] → ∃ column, e = some (.strayAfterQuote column)))
      ∧ (∀ n e, LineError.message ⟨n, e⟩ = "line ".toList ++ Text.ofNat n ++ ": ".toList ++ e.message)
      ∧ RecordError.unterminatedQuote.message = "unterminated quoted field".toList := by
  refine ⟨grouping_exists delimiter _, ?_, fun n e => rfl, rfl⟩
  intro groups last ignored e h x t
  -- The raw lines are divided as their texts are.
  obtain ⟨read, back, hsplit, hread, rfl⟩ := List.map_eq_append_iff.mp h.lines_eq
  obtain ⟨front, middle, rfl, hfront, rfl⟩ := List.map_eq_append_iff.mp hread
  obtain ⟨records, hreads, hrecords⟩ := Reader.Reads.of_records 0 h.record
  rw [← hfront] at hreads
  have htakes := Takes.of_reads selection hreads
  have ht : t = ⟨records.map fun record => selectFields delimiter selection record.fields ++ ['\n'],
      e.map fun e => .malformed ⟨groups.flatten.length + 1, e⟩, ⟨back, none⟩, {}⟩ := by
    have hgo := htakes.go_append (middle ++ back)
    rw [go_remainder h.remainder, ← List.append_assoc, ← hsplit, List.append_nil, Nat.zero_add, hfront] at hgo
    exact hgo
  rw [ht]
  refine ⟨?_, rfl, ?_⟩
  . exact ok_writes_of_records hrecords
  . obtain ⟨read, rest, hdata, hread', hrest⟩ := Line.exists_of_split_eq_append hsplit
    refine ⟨read, rest, hdata, by rw [Source.ofBytes, hrest], ?_, by rw [Line.texts, hrest], ?_⟩
    . rw [Line.texts, hread', hread]
    . intro hne
      apply h.remainder.stray_of_ignored
      intro hignored
      apply hne
      rw [← Line.flatten_split rest, hrest, List.map_eq_nil_iff.mp hignored, List.flatten_nil]

end Extraction
end Excerpt
