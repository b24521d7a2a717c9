import Excerpt.Text.Literal

/-!
This module contains the switches of the command and their spellings, and the ways in which arguments can be wrong.
Each switch has a letter and a long name.
-/

namespace Excerpt

inductive ListKind
  | bytes
  | chars
  | fields
  deriving DecidableEq, Repr

inductive Switch
  | help
  | list (kind : ListKind)
  | delimiter
  deriving DecidableEq, Repr

namespace Switch

def all : List Switch := [.help, .list .bytes, .list .chars, .list .fields, .delimiter]

def letter : Switch → Char
  | .help => 'h'
  | .list .bytes => 'b'
  | .list .chars => 'c'
  | .list .fields => 'f'
  | .delimiter => 'd'

def word : Switch → Text
  | .help => ['h', 'e', 'l', 'p']
  | .list .bytes => ['b', 'y', 't', 'e', 's']
  | .list .chars => ['c', 'h', 'a', 'r', 's']
  | .list .fields => ['f', 'i', 'e', 'l', 'd', 's']
  | .delimiter => ['d', 'e', 'l', 'i', 'm', 'i', 't', 'e', 'r']

def short (s : Switch) : Text := ['-', s.letter]

def long (s : Switch) : Text := '-' :: '-' :: s.word

def title (s : Switch) : Text := s.short ++ '/' :: s.long

def ofLetter? (c : Char) : Option Switch := all.find? fun s => s.letter = c

@[simp]
theorem ofLetter?_letter (s : Switch) : ofLetter? s.letter = some s := by
  cases s with
  | list kind => cases kind <;> rfl
  | _ => rfl

def completions (beginning : Text) : List Switch := all.filter fun s => beginning.isPrefixOf s.long

end Switch

inductive Misuse
  | ambiguous (argument : Text) (candidates : List Switch)
  | valueMissing (s : Switch)
  | valueIgnored (s : Switch) (value : Text)
  | conflict (s earlier : Switch)
  | listMissing
  | unrecognized (arguments : List Text)
  deriving DecidableEq, Repr

namespace Misuse

def about (s : Switch) (problem : Text) : Text := "argument ".toList ++ s.title ++ ": ".toList ++ problem

def message : Misuse → Text
  | .ambiguous argument candidates =>
    "ambiguous option: ".toList ++ argument ++ " could match ".toList
      ++ ", ".toList.intercalate (candidates.map Switch.long)
  | .valueMissing s => about s "expected one argument".toList
  | .valueIgnored s value => about s ("ignored explicit argument ".toList ++ value.literal)
  | .conflict s earlier => about s ("not allowed with argument ".toList ++ earlier.title)
  | .listMissing =>
    "one of the arguments ".toList
      ++ [' '].intercalate ([ListKind.bytes, .chars, .fields].map fun kind => (Switch.list kind).title)
      ++ " is required".toList
  | .unrecognized arguments => "unrecognized arguments: ".toList ++ [' '].intercalate arguments

end Misuse

end Excerpt
