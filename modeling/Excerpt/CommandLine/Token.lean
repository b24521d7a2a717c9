import Excerpt.CommandLine.Switch

/-!
This module contains the classification of single arguments. It looks at each argument by itself, except that
everything behind the first `--` is an operand. An operand such as `-1` or `-.5` is told from a misspelt switch by its
look of a negative number, in the decimal digits of any script, as of Unicode 14.
-/

namespace Excerpt

namespace Text

/--
The digit zero of every script that has decimal digits. Each is followed by its digits one to nine.
-/
def zeros : List Nat := [
    0x30, 0x660, 0x6F0, 0x7C0, 0x966, 0x9E6, 0xA66, 0xAE6, 0xB66, 0xBE6, 0xC66, 0xCE6, 0xD66, 0xDE6, 0xE50,
    0xED0, 0xF20, 0x1040, 0x1090, 0x17E0, 0x1810, 0x1946, 0x19D0, 0x1A80, 0x1A90, 0x1B50, 0x1BB0, 0x1C40,
    0x1C50, 0xA620, 0xA8D0, 0xA900, 0xA9D0, 0xA9F0, 0xAA50, 0xABF0, 0xFF10, 0x104A0, 0x10D30, 0x11066, 0x110F0,
    0x11136, 0x111D0, 0x112F0, 0x11450, 0x114D0, 0x11650, 0x116C0, 0x11730, 0x118E0, 0x11950, 0x11C50, 0x11D50,
    0x11DA0, 0x16A60, 0x16AC0, 0x16B50, 0x1D7CE, 0x1D7D8, 0x1D7E2, 0x1D7EC, 0x1D7F6, 0x1E140, 0x1E2F0, 0x1E950,
    0x1FBF0]

def isDecimal (c : Char) : Bool := zeros.any fun first => first ≤ c.toNat && c.toNat < first + 10

def isUnsignedNumber (s : Text) : Bool :=
  match divideAt '.' s with
  | none => !s.isEmpty && s.all isDecimal
  | some (whole, fraction) => whole.all isDecimal && !fraction.isEmpty && fraction.all isDecimal

/--
A dash and an unsigned number. One line feed at the very end does not count.
-/
def isNegativeNumber : Text → Bool
  | '-' :: s => isUnsignedNumber (if s.getLast? = some '\n' then s.dropLast else s)
  | _ => false

end Text

inductive Spelling
  | short
  | long
  deriving DecidableEq, Repr

inductive Token
  | operand (text : Text)
  /-- The first `--`. -/
  | terminator
  | switch (s : Switch) (spelling : Spelling) (value : Option Text)
  | unknown (text : Text)
  deriving DecidableEq, Repr

namespace Token

def nameAndValue (argument : Text) : Text × Option Text :=
  match Text.divideAt '=' argument with
  | none => (argument, none)
  | some (name, value) => (name, some value)

def ofSpelling? (name : Text) : Option (Switch × Spelling) :=
  match name with
  | ['-', c] => (Switch.ofLetter? c).map (·, .short)
  | _ => (Switch.all.find? (Switch.long · = name)).map (·, .long)

def ofDashed (argument : Text) : Token :=
  if Text.isNegativeNumber argument || argument.contains ' ' then .operand argument else .unknown argument

/--
Classifies an argument. Whole spellings count first, with or without a value behind an equals sign; then shortened
long spellings, and letters with all the rest of the argument as their value.
-/
def classify (argument : Text) : Except Misuse Token :=
  match argument with
  | '-' :: c :: rest =>
    let (name, value) := nameAndValue argument
    match ofSpelling? name with
    | some (s, spelling) => .ok (.switch s spelling value)
    | none =>
      if c = '-' then
        match Switch.completions name with
        | [] => .ok (ofDashed argument)
        | [s] => .ok (.switch s .long value)
        | candidates => .error (.ambiguous argument candidates)
      else
        match Switch.ofLetter? c with
        | some s => .ok (.switch s .short (some rest))
        | none => .ok (ofDashed argument)
  | _ => .ok (.operand argument)

def classifyAll : List Text → Except Misuse (List Token)
  | [] => .ok []
  | argument :: arguments =>
    if argument = ['-', '-'] then
      .ok (.terminator :: arguments.map .operand)
    else
      match classify argument with
      | .error e => .error e
      | .ok token => (classifyAll arguments).map (token :: ·)

end Token

end Excerpt
