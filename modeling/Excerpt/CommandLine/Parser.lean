import Excerpt.CommandLine.Token
import Excerpt.Configuration

/-!
This module contains the reading of the arguments from left to right. Values belong to the switch in front of them;
the first run of operands are the names of the inputs, and later operands are left over.
-/

namespace Excerpt

inductive Halt
  | help
  | misuse (e : Misuse)
  deriving DecidableEq, Repr

inductive Operands
  | awaited
  | running (names : List Text)
  | ended (names : List Text)
  deriving DecidableEq, Repr

namespace Operands

def names : Operands → List Text
  | .awaited => []
  | .running names => names
  | .ended names => names

def close : Operands → Operands
  | .running names => .ended names
  | operands => operands

end Operands

/--
What a switch is given by what is attached to it. The terminator is no value, so it leaves the switch without one.
-/
def Value.ofAttached (value : Text) : Value := if value = ['-', '-'] then .void else .text value

structure Progress where
  list : Option (ListKind × Value) := none
  delimiter : Value := .text ['\t']
  operands : Operands := .awaited
  leftover : List Text := []
  deriving DecidableEq, Repr

namespace Progress

def operand (p : Progress) (text : Text) : Progress :=
  match p.operands with
  | .awaited => { p with operands := .running [text] }
  | .running names => { p with operands := .running (names ++ [text]) }
  | .ended _ => { p with leftover := p.leftover ++ [text] }

/--
Takes the terminator. It is no operand itself, but it can begin the run of operands.
-/
def terminator (p : Progress) : Progress :=
  match p.operands with
  | .awaited => { p with operands := .running [] }
  | .running _ => p
  | .ended _ => { p with leftover := p.leftover ++ [['-', '-']] }

def unknown (p : Progress) (text : Text) : Progress :=
  { p with operands := p.operands.close, leftover := p.leftover ++ [text] }

/--
Gives a switch its value. A list conflicts with an earlier list of another kind; otherwise the last value counts.
Help needs no value.
-/
def assign (p : Progress) (s : Switch) (value : Value) : Except Halt Progress :=
  let p := { p with operands := p.operands.close }
  match s with
  | .help => .error .help
  | .delimiter => .ok { p with delimiter := value }
  | .list kind =>
    match p.list with
    | none => .ok { p with list := some (kind, value) }
    | some (earlier, _) =>
      if earlier = kind then
        .ok { p with list := some (kind, value) }
      else
        .error (.misuse (.conflict (.list kind) (.list earlier)))

/--
What follows from letters behind `-h` in the same argument. They are read as further switches, and help is given
only if these are well formed.
-/
def cluster (next : List Token) (letters : Text) : Halt :=
  match letters with
  | [] => .help
  | c :: rest =>
    match Switch.ofLetter? c with
    | none => .misuse (.valueIgnored .help letters)
    | some .help => cluster next rest
    | some s =>
      match rest, next with
      | [], .operand _ :: _ => .help
      | [], _ => .misuse (.valueMissing s)
      | _, _ => .help

def help (spelling : Spelling) (value : Option Text) (next : List Token) : Halt :=
  match spelling, value with
  | _, none => .help
  | .long, some value => .misuse (.valueIgnored .help value)
  | .short, some [] => .misuse (.valueIgnored .help [])
  | .short, some letters => cluster next letters

def read (p : Progress) : List Token → Except Halt Progress
  | [] => .ok p
  | .operand text :: tokens => (p.operand text).read tokens
  | .terminator :: tokens => p.terminator.read tokens
  | .unknown text :: tokens => (p.unknown text).read tokens
  | .switch .help spelling value :: tokens => .error (help spelling value tokens)
  | .switch s _ (some value) :: tokens =>
    match p.assign s (.ofAttached value) with
    | .error halt => .error halt
    | .ok p => p.read tokens
  | .switch s _ none :: .operand value :: tokens =>
    match p.assign s (.text value) with
    | .error halt => .error halt
    | .ok p => p.read tokens
  | .switch s _ none :: _ => .error (.misuse (.valueMissing s))

def finish (p : Progress) : Except Halt Arguments :=
  match p.list with
  | none => .error (.misuse .listMissing)
  | some (kind, list) =>
    if p.leftover = [] then
      .ok {
        bytes := if kind = .bytes then some list else none
        chars := if kind = .chars then some list else none
        fields := if kind = .fields then some list else none
        delimiter := p.delimiter
        files := if p.operands.names = [] then [['-']] else p.operands.names
      }
    else
      .error (.misuse (.unrecognized p.leftover))

end Progress

def Arguments.parse (arguments : List Text) : Except Halt Arguments :=
  match Token.classifyAll arguments with
  | .error e => .error (.misuse e)
  | .ok tokens =>
    match Progress.read {} tokens with
    | .error halt => .error halt
    | .ok p => p.finish

end Excerpt
