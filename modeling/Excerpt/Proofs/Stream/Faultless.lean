import Excerpt.Stream.Transfer

/-!
This module contains transfers without faults. Such a transfer takes one line after the other, either to the end of
its source or up to a line that stops it; the lines behind that one are left in the source.
-/

namespace Excerpt

theorem Mode.fields_or_not (mode : Mode) :
    (∃ delimiter, mode = .fields delimiter) ∨ ∀ delimiter, mode ≠ .fields delimiter := by
  cases mode <;> simp

namespace Extraction

inductive Takes (x : Extraction) : Reader → List Bytes → List Text → Reader → Prop
  | nil {reader : Reader} : Takes x reader [] [] reader
  | cons {reader next last : Reader} {line : Bytes} {lines : List Bytes} {text : Option Text} {writes : List Text}
    (h : x.feed reader (Line.chomp line) = .ok (next, text)) (hmore : Takes x next lines writes last)
    : Takes x reader (line :: lines) ((text.map (· ++ ['\n'])).toList ++ writes) last

section

variable {x : Extraction} {reader next last : Reader} {line : Bytes} {lines front back : List Bytes}
variable {text : Option Text} {writes : List Text} {stop : Stop} {sink : Sink}

theorem go_nil : transfer.go x reader [] none sink = ⟨[], reader.close.map .malformed, ⟨[], none⟩, sink⟩ := by
  rw [transfer.go, Fault.attempt_none]

theorem go_cons_of_error (h : x.feed reader (Line.chomp line) = .error stop) :
    transfer.go x reader (line :: lines) none sink = ⟨[], some stop, ⟨lines, none⟩, sink⟩ := by
  rw [transfer.go, Fault.attempt_none]
  simp only [h]

theorem go_cons_of_ok (h : x.feed reader (Line.chomp line) = .ok (next, text)) :
    transfer.go x reader (line :: lines) none {}
      = { transfer.go x next lines none {} with
          writes := (text.map (· ++ ['\n'])).toList ++ (transfer.go x next lines none {}).writes } := by
  rw [transfer.go, Fault.attempt_none]
  cases text with
  | none => simp only [h, Option.map_none, Option.toList_none, List.nil_append]
  | some text => simp only [h, Fault.attempt_none, Option.map_some, Option.toList_some, List.singleton_append]

theorem Takes.go_append (h : Takes x reader lines writes last) (more : List Bytes) :
    transfer.go x reader (lines ++ more) none {}
      = { transfer.go x last more none {} with writes := writes ++ (transfer.go x last more none {}).writes } := by
  induction h with
  | nil => rfl
  | cons hfeed _ ih =>
    rw [List.cons_append, go_cons_of_ok hfeed, ih]
    simp

theorem Takes.go_eq (h : Takes x reader lines writes last) :
    transfer.go x reader lines none {} = ⟨writes, last.close.map .malformed, ⟨[], none⟩, {}⟩ := by
  have happend := h.go_append []
  rw [List.append_nil, go_nil] at happend
  simpa using happend

theorem Takes.go_stop (h : Takes x reader front writes last) (hstop : x.feed last (Line.chomp line) = .error stop) :
    transfer.go x reader (front ++ line :: back) none {} = ⟨writes, some stop, ⟨back, none⟩, {}⟩ := by
  rw [h.go_append, go_cons_of_error hstop]
  simp

theorem takes_or_stops (x : Extraction) (reader : Reader) (lines : List Bytes) :
    (∃ writes last, Takes x reader lines writes last)
      ∨ ∃ front line back writes last stop,
          lines = front ++ line :: back
            ∧ Takes x reader front writes last
            ∧ x.feed last (Line.chomp line) = .error stop := by
  induction lines generalizing reader with
  | nil => exact .inl ⟨[], reader, .nil⟩
  | cons line lines ih =>
    cases hfeed : x.feed reader (Line.chomp line) with
    | error stop => exact .inr ⟨[], line, lines, [], reader, stop, rfl, .nil, hfeed⟩
    | ok fed =>
      obtain ⟨next, text⟩ := fed
      rcases ih next with ⟨writes, last, htakes⟩ | ⟨front, line', back, writes, last, stop, rfl, htakes, hstop⟩
      . exact .inl ⟨_, last, .cons hfeed htakes⟩
      . exact .inr ⟨line :: front, line', back, _, last, stop, rfl, .cons hfeed htakes, hstop⟩

theorem transfer_ends {source : Source} (hsource : source.fault = none) :
    (x.transfer source {}).source.fault = none ∧ (x.transfer source {}).sink = {} := by
  rw [transfer, hsource]
  rcases takes_or_stops x {} source.lines with ⟨writes, last, htakes⟩
    | ⟨front, line, back, writes, last, stop, hlines, htakes, hstop⟩
  . rw [htakes.go_eq]
    exact ⟨rfl, rfl⟩
  . rw [hlines, htakes.go_stop hstop]
    exact ⟨rfl, rfl⟩

theorem feed_fields_of_ok {delimiter : Text} {data : Bytes} {record : Option Record} (selection : Selection)
    (h : reader.feed delimiter (Utf8.decode data) = .ok (next, record)) :
    feed ⟨.fields delimiter, selection⟩ reader data
      = .ok (next, record.map fun record => selectFields delimiter selection record.fields) := by
  simp only [feed, h]

theorem feed_fields_of_error {delimiter : Text} {data : Bytes} {e : LineError} (selection : Selection)
    (h : reader.feed delimiter (Utf8.decode data) = .error e) :
    feed ⟨.fields delimiter, selection⟩ reader data = .error (.malformed e) := by
  simp only [feed, h]

theorem feed_of_not_fields {data : Bytes} (h : ∀ delimiter, x.mode ≠ .fields delimiter) (reader : Reader) :
    x.feed reader data
      = match x.ofBytes data with
        | .error e => .error (.ofExtraction (reader.lineCount + 1) e)
        | .ok text => .ok (reader, some text) := by
  unfold feed
  split
  . next delimiter hmode => exact absurd hmode (h delimiter)
  . rfl

theorem eq_of_feed {data : Bytes} (h : ∀ delimiter, x.mode ≠ .fields delimiter)
    (hfeed : x.feed reader data = .ok (next, text)) : next = reader := by
  rw [feed_of_not_fields h] at hfeed
  cases hline : x.ofBytes data with
  | error e => simp [hline] at hfeed
  | ok line =>
    simp only [hline, Except.ok.injEq, Prod.mk.injEq] at hfeed
    exact hfeed.1.symm

theorem ofBytes_eq_error {data : Bytes} {e : ExtractionError} (hfields : ∀ delimiter, x.mode ≠ .fields delimiter)
    (h : x.ofBytes data = .error e) : ∃ name, x.mode = .unknown name ∧ e = .unknownMode name := by
  obtain ⟨mode, selection⟩ := x
  cases mode with
  | bytes => cases h
  | chars => cases h
  | fields delimiter => exact absurd rfl (hfields delimiter)
  | unknown name =>
    cases h
    exact ⟨name, rfl, rfl⟩

theorem feed_eq_error {data : Bytes} (h : x.feed reader data = .error stop) :
    (∃ delimiter e, x.mode = .fields delimiter ∧ stop = .malformed e)
      ∨ ∃ name, x.mode = .unknown name ∧ stop = .unknownMode name := by
  rcases x.mode.fields_or_not with ⟨delimiter, hmode⟩ | hmode
  . simp only [feed, hmode] at h
    cases hfeed : reader.feed delimiter (Utf8.decode data) with
    | error e =>
      simp only [hfeed, Except.error.injEq] at h
      exact .inl ⟨delimiter, e, hmode, h.symm⟩
    | ok fed => simp [hfeed] at h
  . rw [feed_of_not_fields hmode] at h
    cases hline : x.ofBytes data with
    | error e =>
      obtain ⟨name, hname, rfl⟩ := ofBytes_eq_error hmode hline
      simp only [hline, Stop.ofExtraction, Except.error.injEq] at h
      exact .inr ⟨name, hname, h.symm⟩
    | ok line => simp [hline] at h

end

end Extraction
end Excerpt
