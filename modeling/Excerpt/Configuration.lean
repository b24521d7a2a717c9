import Excerpt.Delimiter
import Excerpt.Extraction
import Excerpt.Selection.Parser
import Excerpt.Stream.Basic

/-!
This module contains the step from arguments to what is to be done with which inputs, and what the command has no
answer to. Everything else that goes wrong is told of and gives an exit code; a crash ends the command at once, and
what has been printed until then stays.
-/

namespace Excerpt

inductive Crash
  | noList
  | voidList
  /-- The switch of the delimiter is given without a value, and fields are asked for. -/
  | voidDelimiter
  /-- The name of an input holds the null character, which ends a name for the system. -/
  | nullInName
  | unknownMode (name : Text)
  | helpUnwritten (kind : WriteFault)
  deriving DecidableEq, Repr

/--
The text that comes with a crash. There is none where a missing value is used: what is said then is not up to the
command.
-/
def Crash.message : Crash → Text
  | .noList | .voidList | .voidDelimiter => []
  | .nullInName => "embedded null byte".toList
  | .unknownMode name => (ExtractionError.unknownMode name).message
  | .helpUnwritten kind => kind.message

/--
What a switch is given. It can be given and yet be left without a value.
-/
inductive Value
  | text (t : Text)
  | void
  deriving DecidableEq, Repr

structure Arguments where
  bytes : Option Value := none
  chars : Option Value := none
  fields : Option Value := none
  delimiter : Value := .text ['\t']
  files : List Text := [['-']]
  deriving DecidableEq, Repr

structure Configuration where
  extraction : Extraction
  files : List Text
  deriving DecidableEq, Repr

inductive ConfigurationError
  | selection (e : SelectionError)
  | delimiter (e : DelimiterError)
  | crash (c : Crash)
  deriving DecidableEq, Repr

def ConfigurationError.message : ConfigurationError → Text
  | .selection e => e.message
  | .delimiter e => e.message
  | .crash c => c.message

def Value.selection : Value → Except ConfigurationError Selection
  | .text list => (Selection.parse list).mapError .selection
  | .void => .error (.crash .voidList)

def Value.delimiter : Value → Except ConfigurationError Text
  | .text delimiter => (checkDelimiter delimiter).mapError .delimiter
  | .void => .error (.crash .voidDelimiter)

section

variable {list delimiter d : Text} {selection : Selection}

theorem Value.selection_of_error {e : SelectionError} (h : Selection.parse list = .error e) :
    (Value.text list).selection = .error (.selection e) := by
  rw [Value.selection, h]
  rfl

theorem Value.selection_of_ok (h : Selection.parse list = .ok selection) :
    (Value.text list).selection = .ok selection := by
  rw [Value.selection, h]
  rfl

theorem Value.delimiter_of_error {e : DelimiterError} (h : checkDelimiter delimiter = .error e) :
    (Value.text delimiter).delimiter = .error (.delimiter e) := by
  rw [Value.delimiter, h]
  rfl

theorem Value.delimiter_of_ok (h : checkDelimiter delimiter = .ok d) : (Value.text delimiter).delimiter = .ok d := by
  rw [Value.delimiter, h]
  rfl

end

/--
Reads the list and, where fields are asked for, checks the delimiter; if both are bad, it is the list that is
reported. Of several lists the one of fields counts first, then the one of bytes.
-/
def Arguments.configure (args : Arguments) : Except ConfigurationError Configuration :=
  match args.fields, args.bytes, args.chars with
  | some list, _, _ =>
    match list.selection with
    | .error e => .error e
    | .ok selection =>
      match args.delimiter.delimiter with
      | .error e => .error e
      | .ok delimiter => .ok ⟨⟨.fields delimiter, selection⟩, args.files⟩
  | none, some list, _ => plain .bytes list
  | none, none, some list => plain .chars list
  | none, none, none => .error (.crash .noList)
where
  plain (mode : Mode) (list : Value) : Except ConfigurationError Configuration :=
    match list.selection with
    | .error e => .error e
    | .ok selection => .ok ⟨⟨mode, selection⟩, args.files⟩

end Excerpt
