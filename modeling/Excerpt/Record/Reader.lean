import Excerpt.Record.Basic

/-!
This module contains the reader of records that may run over several lines. It is fed one line after the other.
While a quoted field is open at the end of a line, the next line belongs to the same record; the text so far is
split again as a whole.
-/

namespace Excerpt

structure Record where
  line : Nat
  fields : List Text
  deriving DecidableEq, Repr

structure LineError where
  line : Nat
  error : RecordError
  deriving DecidableEq, Repr

def LineError.message (e : LineError) : Text :=
  "line ".toList ++ Text.ofNat e.line ++ ": ".toList ++ e.error.message

/--
What the reader knows between two lines: how many lines it has read, and, if a record is not complete, the number
of its first line and its text so far.
-/
structure Reader where
  lineCount : Nat := 0
  held : Option (Nat × Text) := none
  deriving DecidableEq, Repr

namespace Reader

def gathered (reader : Reader) (line : Text) : Nat × Text :=
  match reader.held with
  | none => (reader.lineCount + 1, line)
  | some (start, text) => (start, text ++ '\n' :: line)

@[simp]
theorem gathered_none {n : Nat} {line : Text} : gathered ⟨n, none⟩ line = (n + 1, line) := rfl

@[simp]
theorem gathered_some {n start : Nat} {text line : Text} :
    gathered ⟨n, some (start, text)⟩ line = (start, text ++ '\n' :: line) := rfl

def feed (delimiter : Text) (reader : Reader) (line : Text) : Except LineError (Reader × Option Record) :=
  let number := reader.lineCount + 1
  let (start, text) := reader.gathered line
  match Record.split delimiter text with
  | .ok fields => .ok (⟨number, none⟩, some ⟨start, fields⟩)
  | .error .unterminatedQuote => .ok (⟨number, some (start, text)⟩, none)
  | .error e => .error ⟨start, e⟩

section

variable {delimiter line text : Text} {reader : Reader} {start : Nat} {fields : List Text} {column : Nat}

theorem feed_of_ok (hline : reader.gathered line = (start, text)) (h : Record.split delimiter text = .ok fields) :
    reader.feed delimiter line = .ok (⟨reader.lineCount + 1, none⟩, some ⟨start, fields⟩) := by
  simp only [feed, hline, h]

theorem feed_of_unterminated (hline : reader.gathered line = (start, text))
    (h : Record.split delimiter text = .error .unterminatedQuote) :
    reader.feed delimiter line = .ok (⟨reader.lineCount + 1, some (start, text)⟩, none) := by
  simp only [feed, hline, h]

theorem feed_of_stray (hline : reader.gathered line = (start, text))
    (h : Record.split delimiter text = .error (.strayAfterQuote column)) :
    reader.feed delimiter line = .error ⟨start, .strayAfterQuote column⟩ := by
  simp only [feed, hline, h]

end

def close (reader : Reader) : Option LineError :=
  reader.held.map fun (start, _) => ⟨start, .unterminatedQuote⟩

def run (delimiter : Text) (reader : Reader) : List Text → List Record × Option LineError
  | [] => ([], reader.close)
  | line :: lines =>
    match reader.feed delimiter line with
    | .error e => ([], some e)
    | .ok (reader, none) => reader.run delimiter lines
    | .ok (reader, some record) =>
      let (records, e) := reader.run delimiter lines
      (record :: records, e)

section

variable {delimiter line text : Text} {lines : List Text} {reader : Reader} {start : Nat} {fields : List Text}
variable {column : Nat}

theorem run_cons_of_ok (hline : reader.gathered line = (start, text))
    (h : Record.split delimiter text = .ok fields) :
    reader.run delimiter (line :: lines)
      = (⟨start, fields⟩ :: (run delimiter ⟨reader.lineCount + 1, none⟩ lines).1,
        (run delimiter ⟨reader.lineCount + 1, none⟩ lines).2) := by
  simp only [run, feed_of_ok hline h]

theorem run_cons_of_unterminated (hline : reader.gathered line = (start, text))
    (h : Record.split delimiter text = .error .unterminatedQuote) :
    reader.run delimiter (line :: lines) = run delimiter ⟨reader.lineCount + 1, some (start, text)⟩ lines := by
  simp only [run, feed_of_unterminated hline h]

theorem run_cons_of_stray (hline : reader.gathered line = (start, text))
    (h : Record.split delimiter text = .error (.strayAfterQuote column)) :
    reader.run delimiter (line :: lines) = ([], some ⟨start, .strayAfterQuote column⟩) := by
  simp only [run, feed_of_stray hline h]

end

end Reader

def Record.readAll (delimiter : Text) (lines : List Text) : List Record × Option LineError :=
  Reader.run delimiter {} lines

end Excerpt
