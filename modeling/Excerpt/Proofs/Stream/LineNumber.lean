import Excerpt.Proofs.Stream.Append
import Excerpt.Proofs.Stream.Lines

/-!
This module contains the line numbers in errors. The reader only ever holds a record that began on a line it has read,
so an error names a line of the data, however long the record has grown.
-/

namespace Excerpt

namespace Reader

variable {delimiter line : Text} {reader next : Reader} {record : Option Record} {e : LineError}

def HeldWithin (reader : Reader) : Prop :=
  ∀ start text, reader.held = some (start, text) → 1 ≤ start ∧ start ≤ reader.lineCount

theorem feed_cases (delimiter : Text) (reader : Reader) (line : Text) :
    (∃ record, reader.feed delimiter line = .ok (⟨reader.lineCount + 1, none⟩, some record))
      ∨ reader.feed delimiter line = .ok (⟨reader.lineCount + 1, some (reader.gathered line)⟩, none)
      ∨ ∃ error, reader.feed delimiter line = .error ⟨(reader.gathered line).1, error⟩ := by
  cases hline : reader.gathered line with
  | mk start text =>
    cases hsplit : Record.split delimiter text with
    | ok fields => exact .inl ⟨_, feed_of_ok hline hsplit⟩
    | error error =>
      cases error with
      | unterminatedQuote => exact .inr (.inl (feed_of_unterminated hline hsplit))
      | strayAfterQuote column => exact .inr (.inr ⟨_, feed_of_stray hline hsplit⟩)

theorem HeldWithin.gathered (h : reader.HeldWithin) (line : Text) :
    1 ≤ (reader.gathered line).1 ∧ (reader.gathered line).1 ≤ reader.lineCount + 1 := by
  obtain ⟨n, held⟩ := reader
  cases held with
  | none => simp
  | some held =>
    obtain ⟨hone, hle⟩ := h held.1 held.2 rfl
    exact ⟨hone, Nat.le_succ_of_le hle⟩

theorem HeldWithin.of_feed (h : reader.HeldWithin) (hfeed : reader.feed delimiter line = .ok (next, record)) :
    next.HeldWithin := by
  rcases feed_cases delimiter reader line with ⟨record, hok⟩ | hheld | ⟨error, herror⟩
  . cases hfeed.symm.trans hok
    nofun
  . cases hfeed.symm.trans hheld
    intro start text heq
    have hstart := h.gathered line
    rw [Option.some.inj heq] at hstart
    exact hstart
  . cases hfeed.symm.trans herror

theorem HeldWithin.line_of_feed (h : reader.HeldWithin) (hfeed : reader.feed delimiter line = .error e) :
    1 ≤ e.line ∧ e.line ≤ reader.lineCount + 1 := by
  rcases feed_cases delimiter reader line with ⟨record, hok⟩ | hheld | ⟨error, herror⟩
  . cases hfeed.symm.trans hok
  . cases hfeed.symm.trans hheld
  . cases hfeed.symm.trans herror
    exact h.gathered line

end Reader

namespace Extraction

variable {x : Extraction} {delimiter : Text} {selection : Selection} {reader last : Reader} {lines : List Bytes}
variable {writes : List Text} {stop : Stop}

theorem Takes.heldWithin (h : Takes ⟨.fields delimiter, selection⟩ reader lines writes last)
    (hreader : reader.HeldWithin) : last.HeldWithin := by
  induction h with
  | nil => exact hreader
  | @cons reader next last line lines text writes hfeed _ ih =>
    cases hline : reader.feed delimiter (Utf8.decode (Line.chomp line)) with
    | error e =>
      rw [feed_fields_of_error selection hline] at hfeed
      cases hfeed
    | ok fed =>
      obtain ⟨next', record⟩ := fed
      rw [feed_fields_of_ok selection hline, Except.ok.injEq, Prod.mk.injEq] at hfeed
      exact ih (hfeed.1 ▸ hreader.of_feed hline)

theorem stop_eq_none (hmode : x.mode = .bytes ∨ x.mode = .chars) (data : Bytes) :
    (x.transfer (.ofBytes data) {}).stop = none := by
  obtain ⟨text, htext⟩ := exists_text hmode
  have htransfer : x.transfer (.ofBytes data) {}
      = ⟨(Line.split data).map fun line => text (Line.chomp line) ++ ['\n'], none, ⟨[], none⟩, {}⟩ :=
    (takes_of_text fun line => (htext line).2).go_eq
  rw [htransfer]

theorem stop_fields {data : Bytes}
    (h : (transfer ⟨.fields delimiter, selection⟩ (.ofBytes data) {}).stop = some stop) :
    ∃ e, stop = .malformed e ∧ 1 ≤ e.line ∧ e.line ≤ (Line.split data).length := by
  have hbegin : Reader.HeldWithin {} := nofun
  rw [transfer, show (Source.ofBytes data).lines = Line.split data from rfl,
    show (Source.ofBytes data).fault = none from rfl] at h
  rcases takes_or_stops ⟨.fields delimiter, selection⟩ {} (Line.split data) with ⟨writes, last, htakes⟩
    | ⟨front, line, back, writes, last, stop', hlines, htakes, hstop⟩
  . rw [htakes.go_eq] at h
    obtain ⟨e, hclose, rfl⟩ := Option.map_eq_some_iff.mp h
    obtain ⟨⟨start, text⟩, hheld, rfl⟩ := Option.map_eq_some_iff.mp hclose
    have hcount : last.lineCount = 0 + (Line.split data).length := htakes.lineCount_eq
    obtain ⟨hone, hle⟩ := htakes.heldWithin hbegin start text hheld
    rw [hcount, Nat.zero_add] at hle
    exact ⟨⟨start, .unterminatedQuote⟩, rfl, hone, hle⟩
  . rw [hlines, htakes.go_stop hstop, Option.some.injEq] at h
    subst h
    have hcount : last.lineCount = 0 + front.length := htakes.lineCount_eq
    cases hfeed : last.feed delimiter (Utf8.decode (Line.chomp line)) with
    | ok fed =>
      rw [feed_fields_of_ok selection hfeed] at hstop
      cases hstop
    | error e =>
      rw [feed_fields_of_error selection hfeed] at hstop
      cases hstop
      obtain ⟨hone, hle⟩ := (htakes.heldWithin hbegin).line_of_feed hfeed
      refine ⟨e, rfl, hone, ?_⟩
      rw [hlines, List.length_append, List.length_cons]
      omega

end Extraction

end Excerpt
