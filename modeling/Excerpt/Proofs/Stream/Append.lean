import Excerpt.Proofs.Stream.Faultless

/-!
This module contains transfers of data in two parts. If the first part ends with a line, and with a record, the second
part is transferred as if it stood alone, except that its lines are numbered from where the first part ends. If a
record of the first part is malformed, nothing of the second part is read.
-/

namespace Excerpt

def LineError.shift (k : Nat) (e : LineError) : LineError := ⟨e.line + k, e.error⟩

def Record.shift (k : Nat) (record : Record) : Record := ⟨record.line + k, record.fields⟩

def Reader.shift (k : Nat) (reader : Reader) : Reader where
  lineCount := reader.lineCount + k
  held := reader.held.map fun (start, text) => (start + k, text)

def Stop.shift (k : Nat) : Stop → Stop
  | .malformed e => .malformed (e.shift k)
  | stop => stop

theorem Stop.ofExtraction_shift {line k : Nat} {e : ExtractionError} :
    (Stop.ofExtraction line e).shift k = .ofExtraction (line + k) e := by
  cases e with
  | record e => rfl
  | unknownMode name => rfl

namespace Reader

variable {delimiter line : Text} {reader : Reader} {k : Nat}

theorem gathered_shift :
    (reader.shift k).gathered line = ((reader.gathered line).1 + k, (reader.gathered line).2) := by
  obtain ⟨n, held⟩ := reader
  cases held with
  | none => simp [shift, Nat.add_right_comm]
  | some held => rfl

theorem close_shift : (reader.shift k).close = reader.close.map (LineError.shift k) := by
  obtain ⟨n, held⟩ := reader
  cases held with
  | none => rfl
  | some held => rfl

theorem feed_shift :
    (reader.shift k).feed delimiter line
      = match reader.feed delimiter line with
        | .error e => .error (e.shift k)
        | .ok (next, record) => .ok (next.shift k, record.map (Record.shift k)) := by
  generalize hline : reader.gathered line = gathered
  obtain ⟨start, text⟩ := gathered
  have hshift : (reader.shift k).gathered line = (start + k, text) := by rw [gathered_shift, hline]
  cases hsplit : Record.split delimiter text with
  | ok fields =>
    rw [feed_of_ok hline hsplit, feed_of_ok hshift hsplit]
    simp [shift, Record.shift, Nat.add_right_comm]
  | error e =>
    cases e with
    | unterminatedQuote =>
      rw [feed_of_unterminated hline hsplit, feed_of_unterminated hshift hsplit]
      simp [shift, Nat.add_right_comm]
    | strayAfterQuote column =>
      rw [feed_of_stray hline hsplit, feed_of_stray hshift hsplit]
      rfl

theorem lineCount_of_feed {next : Reader} {record : Option Record}
    (h : reader.feed delimiter line = .ok (next, record)) : next.lineCount = reader.lineCount + 1 := by
  unfold feed at h
  dsimp only at h
  split at h
  . cases h
    rfl
  . cases h
    rfl
  . cases h

theorem eq_shift_of_close (h : reader.close = none) : reader = shift reader.lineCount {} := by
  obtain ⟨n, held⟩ := reader
  cases held with
  | none => simp [shift]
  | some held => cases h

end Reader

namespace Extraction

variable {x : Extraction} {reader last : Reader} {line : Bytes} {lines front : List Bytes} {writes : List Text}
variable {k : Nat}

theorem feed_shift :
    x.feed (reader.shift k) line
      = match x.feed reader line with
        | .error stop => .error (stop.shift k)
        | .ok (next, text) => .ok (next.shift k, text) := by
  rcases x.mode.fields_or_not with ⟨delimiter, hmode⟩ | hmode
  . simp only [feed, hmode, Reader.feed_shift]
    cases reader.feed delimiter (Utf8.decode line) with
    | error e => rfl
    | ok fed => simp [Record.shift, Function.comp_def]
  . rw [feed_of_not_fields hmode, feed_of_not_fields hmode]
    cases x.ofBytes line with
    | error e => simp [Reader.shift, Stop.ofExtraction_shift, Nat.add_right_comm]
    | ok text => rfl

theorem Takes.shift (h : Takes x reader lines writes last) :
    Takes x (reader.shift k) lines writes (last.shift k) := by
  induction h with
  | nil => exact .nil
  | cons hfeed _ ih =>
    refine .cons ?_ ih
    rw [feed_shift, hfeed]

theorem go_shift :
    transfer.go x (reader.shift k) lines none {}
      = { transfer.go x reader lines none {} with
          stop := (transfer.go x reader lines none {}).stop.map (Stop.shift k) } := by
  rcases takes_or_stops x reader lines with ⟨writes, last, htakes⟩
    | ⟨front, line, back, writes, last, stop, rfl, htakes, hstop⟩
  . rw [htakes.go_eq, htakes.shift.go_eq, Reader.close_shift]
    simp [Function.comp_def, Stop.shift]
  . have hshift : x.feed (last.shift k) (Line.chomp line) = .error (stop.shift k) := by
      rw [feed_shift, hstop]
    rw [htakes.go_stop hstop, htakes.shift.go_stop hshift]
    rfl

theorem Takes.lineCount_eq {delimiter : Text} {selection : Selection}
    (h : Takes ⟨.fields delimiter, selection⟩ reader lines writes last) :
    last.lineCount = reader.lineCount + lines.length := by
  induction h with
  | nil => rfl
  | @cons reader next last line lines text writes hfeed _ ih =>
    cases hline : reader.feed delimiter (Utf8.decode (Line.chomp line)) with
    | error e =>
      rw [feed_fields_of_error selection hline] at hfeed
      cases hfeed
    | ok fed =>
      obtain ⟨next', record⟩ := fed
      rw [feed_fields_of_ok selection hline, Except.ok.injEq, Prod.mk.injEq] at hfeed
      rw [ih, ← hfeed.1, Reader.lineCount_of_feed hline, List.length_cons]
      omega

theorem Takes.last_eq (h : Takes x reader lines writes last) (hmode : ∀ delimiter, x.mode ≠ .fields delimiter) :
    last = reader := by
  induction h with
  | nil => rfl
  | cons hfeed _ ih => rw [ih, eq_of_feed hmode hfeed]

theorem shift_stop_of_not_fields (hmode : ∀ delimiter, x.mode ≠ .fields delimiter) (hclose : reader.close = none) :
    (transfer.go x reader lines none {}).stop.map (Stop.shift k) = (transfer.go x reader lines none {}).stop := by
  rcases takes_or_stops x reader lines with ⟨writes, last, htakes⟩
    | ⟨front, line, back, writes, last, stop, rfl, htakes, hstop⟩
  . rw [htakes.go_eq, htakes.last_eq hmode, hclose]
    rfl
  . rw [htakes.go_stop hstop]
    -- Without fields only a mode that is not known stops a transfer, and that stop has no line number.
    rcases feed_eq_error hstop with ⟨delimiter, e, hfields, _⟩ | ⟨name, _, rfl⟩
    . exact absurd hfields (hmode delimiter)
    . rfl

/--
Behind lines that complete their records, only the numbers of the lines tell that anything has been read.
-/
theorem Takes.go_of_close (h : Takes x {} front writes last) (hclose : last.close = none) :
    transfer.go x last lines none {}
      = { transfer.go x {} lines none {} with
          stop := (transfer.go x {} lines none {}).stop.map (Stop.shift front.length) } := by
  rw [Reader.eq_shift_of_close hclose, go_shift]
  by_cases hmode : ∃ delimiter, x.mode = .fields delimiter
  . obtain ⟨mode, selection⟩ := x
    obtain ⟨delimiter, rfl⟩ := hmode
    rw [h.lineCount_eq, Nat.zero_add]
  . rw [not_exists] at hmode
    rw [shift_stop_of_not_fields hmode rfl, shift_stop_of_not_fields hmode rfl]

theorem transfer_append (x : Extraction) {data more : Bytes} (h : ∀ byte ∈ data.getLast?, byte = 0x0A) :
    let first := x.transfer (.ofBytes data) {}
    let second := x.transfer (.ofBytes more) {}
    let whole := x.transfer (.ofBytes (data ++ more)) {}
    (first.stop = none →
        whole = { second with
          writes := first.writes ++ second.writes
          stop := second.stop.map (Stop.shift (Line.split data).length) })
      ∧ (∀ n column, first.stop = some (.malformed ⟨n, .strayAfterQuote column⟩) →
          whole = { first with source := ⟨first.source.lines ++ Line.split more, none⟩ })
      ∧ first.writes <+: whole.writes
      ∧ ∀ k n e, (LineError.shift k ⟨n, e⟩).message
          = "line ".toList ++ Text.ofNat (n + k) ++ ": ".toList ++ e.message := by
  intro first second whole
  have hwhole : whole = transfer.go x {} (Line.split data ++ Line.split more) none {} := by
    rw [← Line.split_append h]
    rfl
  rcases takes_or_stops x {} (Line.split data) with ⟨writes, last, htakes⟩
    | ⟨front, line, back, writes, last, stop, hsplit, htakes, hstop⟩
  . have hfirst : first = ⟨writes, last.close.map .malformed, ⟨[], none⟩, {}⟩ := htakes.go_eq
    rw [hwhole, htakes.go_append, hfirst]
    refine ⟨?_, ?_, List.prefix_append _ _, fun k n e => rfl⟩
    . intro hclose
      rw [htakes.go_of_close (by simpa using hclose)]
      rfl
    . intro n column hstray
      -- The end of the data alone never shows a stray character.
      cases hheld : last.held with
      | none => simp [Reader.close, hheld] at hstray
      | some held => simp [Reader.close, hheld] at hstray
  . have hfirst : first = ⟨writes, some stop, ⟨back, none⟩, {}⟩ := by
      rw [← htakes.go_stop hstop, ← hsplit]
      rfl
    rw [hwhole, hsplit, List.append_assoc, List.cons_append, htakes.go_stop hstop, hfirst]
    refine ⟨?_, ?_, List.prefix_refl _, fun k n e => rfl⟩
    . intro hnone
      cases hnone
    . intro n column _
      rfl

theorem transfer_append_comma :
    (∀ byte ∈ (Utf8.encode "a,\"b\nc\"\n".toList).getLast?, byte = 0x0A)
      ∧ (transfer ⟨.fields [','], [⟨1, 2⟩]⟩ (.ofBytes (Utf8.encode "a,\"b\nc\"\n".toList)) {}).stop = none
      ∧ transfer ⟨.fields [','], [⟨1, 2⟩]⟩
          (.ofBytes (Utf8.encode "a,\"b\nc\"\n".toList ++ Utf8.encode "d,e\n\"f\ng\"h\ni".toList)) {}
        = ⟨["\"b\nc\"\n".toList, "e\n".toList], some (.malformed ⟨4, .strayAfterQuote 6⟩),
            .ofBytes (Utf8.encode "i".toList), {}⟩ := by
  have hend : (Utf8.encode "a,\"b\nc\"\n".toList).getLast? = some 0x0A := rfl
  have hlast : ∀ byte ∈ (Utf8.encode "a,\"b\nc\"\n".toList).getLast?, byte = 0x0A := by
    intro byte hbyte
    rw [hend] at hbyte
    exact (Option.some.inj hbyte).symm
  have hstop :
      (transfer ⟨.fields [','], [⟨1, 2⟩]⟩ (.ofBytes (Utf8.encode "a,\"b\nc\"\n".toList)) {}).stop = none := by
    decide +kernel
  refine ⟨hlast, hstop, ?_⟩
  rw [(transfer_append _ hlast).1 hstop]
  decide +kernel

end Extraction

end Excerpt
