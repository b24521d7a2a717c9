import Excerpt.Text.Basic
import Excerpt.Selection.Basic

/-!
This module contains the reader of written selections such as `1,7,3-5`: tokens between commas, each a number or
two numbers around a dash. Numbers are written from 1 and both bounds of a token are included; the spans that come
out count from 0 and are half open.
-/

namespace Excerpt

inductive SelectionError
  | illegalValue (token : Text)
  | notAscending (first second : Nat)
  deriving DecidableEq, Repr

def SelectionError.message : SelectionError → Text
  | .illegalValue token => "illegal list value \"".toList ++ token ++ ['"']
  | .notAscending first second =>
    "First number in range (".toList ++ Text.ofNat first
      ++ ") must be lower than second number (".toList ++ Text.ofNat second ++ [')']

def isNumeral (token : Text) : Bool := !token.isEmpty && token.all Char.isDigit

/--
The most digits a numeral may have after its leading zeros.
-/
def maxDigits : Nat := 4300

/--
Reads a numeral from 1 on and gives the position from 0 on.
-/
def Position.parse (token : Text) : Except SelectionError Nat :=
  let digits := token.dropWhile (· == '0')
  if isNumeral token && !digits.isEmpty && digits.length ≤ maxDigits then
    .ok (Nat.ofDigitChars 10 digits 0 - 1)
  else
    .error (.illegalValue token)

namespace Span

/--
The span between two bounds, both included. An unacceptable bound is reported by itself, the first one first.
-/
def ofBounds (first second : Text) : Except SelectionError Span :=
  match Position.parse first with
  | .error e => .error e
  | .ok low =>
    match Position.parse second with
    | .error e => .error e
    | .ok high =>
      if low < high then
        .ok ⟨low, high + 1⟩
      else
        .error (.notAscending (low + 1) (high + 1))

/--
Reads one token. What is neither a number nor two numerals around one dash is reported whole.
-/
def parse (token : Text) : Except SelectionError Span :=
  match Position.parse token with
  | .ok position => .ok ⟨position, position + 1⟩
  | .error e =>
    match token.splitOn '-' with
    | [first, second] =>
      if isNumeral first && isNumeral second then ofBounds first second else .error e
    | _ => .error e

end Span

def Selection.parse (list : Text) : Except SelectionError Selection :=
  (list.splitOn ',').mapM Span.parse

end Excerpt
