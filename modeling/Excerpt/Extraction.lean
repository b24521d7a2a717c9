import Excerpt.Selection.Basic
import Excerpt.Record.Reader
import Excerpt.Record.Writer
import Excerpt.Utf8

/-!
This module contains what is taken out of one line: bytes, characters or fields, at given positions.
-/

namespace Excerpt

inductive Mode
  | bytes
  | chars
  | fields (delimiter : Text)
  /-- A mode under a name that means nothing. It is refused by the first line that it meets. -/
  | unknown (name : Text)
  deriving DecidableEq, Repr

structure Extraction where
  mode : Mode
  selection : Selection
  deriving DecidableEq, Repr

inductive ExtractionError
  | record (e : RecordError)
  | unknownMode (name : Text)
  deriving DecidableEq, Repr

def ExtractionError.message : ExtractionError → Text
  | .record e => e.message
  | .unknownMode name => "unknown extraction mode '".toList ++ name ++ ['\'']

def selectBytes (selection : Selection) (line : Bytes) : Text := Utf8.decode (selection.select line)

def selectFields (delimiter : Text) (selection : Selection) (fields : List Text) : Text :=
  Record.write delimiter (selection.select fields)

namespace Extraction

def ofText (x : Extraction) (line : Text) : Except ExtractionError Text :=
  match x.mode with
  | .bytes => .ok (selectBytes x.selection (Utf8.encode line))
  | .chars => .ok (x.selection.select line)
  | .fields delimiter =>
    match Record.split delimiter line with
    | .error e => .error (.record e)
    | .ok fields => .ok (selectFields delimiter x.selection fields)
  | .unknown name => .error (.unknownMode name)

/--
Extracts from one line of raw data. Only byte mode takes it as it is; the others take its text.
-/
def ofBytes (x : Extraction) (line : Bytes) : Except ExtractionError Text :=
  match x.mode with
  | .bytes => .ok (selectBytes x.selection line)
  | _ => x.ofText (Utf8.decode line)

end Extraction

end Excerpt
