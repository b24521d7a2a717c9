import Excerpt.Delimiter
import Excerpt.Proofs.Record.Automaton
import Excerpt.Record.Reader

/-!
This module contains a scanner that reads records in one pass, with an event for every character and for every line
end. The reader of records, which splits the text of an unfinished record again with every line, gives the same
records and the same error.
-/

namespace Excerpt

open Record

inductive Event
  | char (c : Char)
  | lineEnd
  deriving DecidableEq, Repr

def Event.ofLines (lines : List Text) : List Event := lines.flatMap fun line => line.map .char ++ [.lineEnd]

structure Scanner where
  line : Nat := 1
  start : Nat := 1
  automaton : Automaton := {}
  deriving DecidableEq, Repr

namespace Scanner

def step (d : Char) (scanner : Scanner) (event : Event) : Except LineError (Scanner × Option Record) :=
  match event with
  | .char c =>
    match scanner.automaton.readChar d c with
    | .error e => .error ⟨scanner.start, e⟩
    | .ok a => .ok (⟨scanner.line, scanner.start, a⟩, none)
  | .lineEnd =>
    if scanner.automaton.place = .quoted then
      .ok (⟨scanner.line + 1, scanner.start, scanner.automaton.literal .quoted '\n'⟩, none)
    else
      let fields := scanner.automaton.fields ++ [scanner.automaton.field]
      .ok (⟨scanner.line + 1, scanner.line + 1, {}⟩, some ⟨scanner.start, fields⟩)

def close (scanner : Scanner) : Option LineError :=
  if scanner.automaton.place = .quoted then some ⟨scanner.start, .unterminatedQuote⟩ else none

def run (d : Char) (scanner : Scanner) : List Event → List Record × Option LineError
  | [] => ([], scanner.close)
  | event :: events =>
    match scanner.step d event with
    | .error e => ([], some e)
    | .ok (scanner, none) => scanner.run d events
    | .ok (scanner, some record) =>
      let (records, e) := scanner.run d events
      (record :: records, e)

section

variable {d : Char} {a b : Automaton} {n start : Nat} {s : Text} {events : List Event} {e : RecordError}

theorem run_chars_of_ok (h : a.readChars d s = .ok b) :
    run d ⟨n, start, a⟩ (s.map .char ++ events) = run d ⟨n, start, b⟩ events := by
  induction s generalizing a with
  | nil =>
    rw [Automaton.readChars, Except.ok.injEq] at h
    rw [h, List.map_nil, List.nil_append]
  | cons c s ih =>
    cases hc : a.readChar d c with
    | error e => simp [Automaton.readChars, hc] at h
    | ok a' =>
      rw [Automaton.readChars_cons_of_ok hc] at h
      simp only [List.map_cons, List.cons_append, run, step, hc]
      exact ih h

theorem run_chars_of_error (h : a.readChars d s = .error e) :
    run d ⟨n, start, a⟩ (s.map .char ++ events) = ([], some ⟨start, e⟩) := by
  induction s generalizing a with
  | nil => simp [Automaton.readChars] at h
  | cons c s ih =>
    cases hc : a.readChar d c with
    | error e' =>
      simp only [Automaton.readChars, hc, Except.error.injEq] at h
      simp only [List.map_cons, List.cons_append, run, step, hc, h]
    | ok a' =>
      rw [Automaton.readChars_cons_of_ok hc] at h
      simp only [List.map_cons, List.cons_append, run, step, hc]
      exact ih h

theorem run_lineEnd_of_ne (h : a.place ≠ .quoted) :
    run d ⟨n, start, a⟩ (.lineEnd :: events)
      = (⟨start, a.fields ++ [a.field]⟩ :: (run d ⟨n + 1, n + 1, {}⟩ events).1,
        (run d ⟨n + 1, n + 1, {}⟩ events).2) := by
  simp only [run, step, if_neg h]

theorem run_lineEnd_of_quoted (h : a.place = .quoted) :
    run d ⟨n, start, a⟩ (.lineEnd :: events) = run d ⟨n + 1, start, a.literal .quoted '\n'⟩ events := by
  simp only [run, step, if_pos h]

end

/--
What a reader and a scanner have in common between two lines: the scanner has read the text that the reader holds,
and a line end behind it.
-/
structure Agree (d : Char) (reader : Reader) (scanner : Scanner) : Prop where
  line_eq : scanner.line = reader.lineCount + 1
  read : ∃ before, Automaton.readChars d {} before = .ok scanner.automaton
    ∧ ∀ line, reader.gathered line = (scanner.start, before ++ line)
  close_eq : scanner.close = reader.close

theorem Agree.idle {d : Char} {n : Nat} : Agree d ⟨n, none⟩ ⟨n + 1, n + 1, {}⟩ where
  line_eq := rfl
  read := ⟨[], rfl, by simp⟩
  close_eq := rfl

theorem Agree.held {d : Char} {n start : Nat} {text : Text} {a : Automaton}
    (hread : Automaton.readChars d {} text = .ok a) (hplace : a.place = .quoted) :
    Agree d ⟨n, some (start, text)⟩ ⟨n + 1, start, a.literal .quoted '\n'⟩ where
  line_eq := rfl
  read := by
    refine ⟨text ++ ['\n'], ?_, by simp⟩
    rw [Automaton.readChars_append_of_ok hread]
    simp [Automaton.readChars, Automaton.readChar, hplace]
  close_eq := rfl

theorem run_eq_of_agree {d : Char} {reader : Reader} {scanner : Scanner} (hd : d ≠ '"') (h : Agree d reader scanner)
    (lines : List Text) : scanner.run d (Event.ofLines lines) = reader.run [d] lines := by
  induction lines generalizing reader scanner with
  | nil =>
    have hclose := h.close_eq
    simp [Event.ofLines, run, Reader.run, hclose]
  | cons line lines ih =>
    obtain ⟨n, start, a⟩ := scanner
    obtain ⟨hline, ⟨before, hread, hgathered⟩, _⟩ := h
    dsimp only at hline hread hgathered
    have hevents : Event.ofLines (line :: lines) = line.map .char ++ .lineEnd :: Event.ofLines lines := by
      simp [Event.ofLines]
    have hsplit : split [d] (before ++ line) = a.readText d line := by
      rw [← Automaton.readText_empty hd, Automaton.readText_append_of_ok hread]
    rw [hevents]
    -- Both sides go on with the text of the record up to the end of the line.
    rcases a.readText_cases d line with ⟨b, hb, hplace, htext⟩ | ⟨b, hb, hplace, htext⟩ | ⟨column, hb, htext⟩
    . rw [htext] at hsplit
      rw [run_chars_of_ok hb, run_lineEnd_of_ne hplace, Reader.run_cons_of_ok (hgathered line) hsplit, hline,
        ih .idle]
    . rw [htext] at hsplit
      have hbefore : Automaton.readChars d {} (before ++ line) = .ok b := by
        rw [Automaton.readChars_append_of_ok hread, hb]
      rw [run_chars_of_ok hb, run_lineEnd_of_quoted hplace,
        Reader.run_cons_of_unterminated (hgathered line) hsplit, hline, ih (.held hbefore hplace)]
    . rw [htext] at hsplit
      rw [run_chars_of_error hb, Reader.run_cons_of_stray (hgathered line) hsplit]

theorem run_eq_readAll {d : Char} (hd : d ≠ '"') (lines : List Text) :
    run d {} (Event.ofLines lines) = Record.readAll [d] lines :=
  run_eq_of_agree hd .idle lines

end Scanner

theorem Record.readAll_eq_scan {delimiter checked : Text} (h : checkDelimiter delimiter = .ok checked) :
    ∃ d, checked = [d]
      ∧ (∀ lines, Record.readAll checked lines = Scanner.run d {} (Event.ofLines lines))
      ∧ (∀ start, LineError.message ⟨start, .unterminatedQuote⟩
          = "line ".toList ++ Text.ofNat start ++ ": ".toList ++ "unterminated quoted field".toList)
      ∧ ∀ start column, LineError.message ⟨start, .strayAfterQuote column⟩
          = "line ".toList ++ Text.ofNat start ++ ": ".toList
            ++ ("expected delimiter after closing quote at column ".toList ++ Text.ofNat column) := by
  obtain ⟨d, rfl, rfl, hd, _, _⟩ := checkDelimiter_eq_ok h
  refine ⟨d, rfl, ?_, ?_, ?_⟩
  . intro lines
    rw [Scanner.run_eq_readAll hd]
  . intro start
    rfl
  . intro start column
    rfl

example :
    Scanner.run ',' {} (Event.ofLines [['a', ',', '"', 'b'], ['c', '"', ',', 'd'], ['"', '"', 'e']])
      = ([⟨1, [['a'], ['b', '\n', 'c'], ['d']]⟩], some ⟨3, .strayAfterQuote 3⟩) := by
  decide

theorem Record.readAll_eq_scan_comma :
    checkDelimiter [','] = .ok [',']
      ∧ ∃ d, [','] = [d]
        ∧ Record.readAll [','] [['a', ',', '"', 'b'], ['"', '"'], ['c', '"', 'x']]
          = Scanner.run d {} (Event.ofLines [['a', ',', '"', 'b'], ['"', '"'], ['c', '"', 'x']]) := by
  have hcomma : checkDelimiter [','] = .ok [','] := rfl
  obtain ⟨d, hd, hread, _⟩ := Record.readAll_eq_scan hcomma
  exact ⟨hcomma, d, hd, hread _⟩

end Excerpt
