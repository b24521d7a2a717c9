import Excerpt.Text.Basic

/-!
This module contains the writer of records. A field is quoted only if it could not be read back without quotes, or
holds a quote or a line break anywhere.
-/

namespace Excerpt.Record

def doubleQuotes (field : Text) : Text :=
  field.flatMap fun c => if c = '"' then ['"', '"'] else [c]

@[simp]
theorem doubleQuotes_nil : doubleQuotes [] = [] := rfl

theorem doubleQuotes_cons_quote {field : Text} : doubleQuotes ('"' :: field) = '"' :: '"' :: doubleQuotes field := rfl

theorem doubleQuotes_cons_of_ne {c : Char} {field : Text} (hc : c ≠ '"') :
    doubleQuotes (c :: field) = c :: doubleQuotes field := by
  simp [doubleQuotes, hc]

/--
The empty delimiter occurs in every field, so with it all fields are quoted.
-/
def needsQuotes (delimiter : Text) (field : Text) : Bool :=
  Text.occursIn delimiter field || field.any fun c => c == '"' || c == '\n' || c == '\r'

theorem needsQuotes_singleton {d : Char} {field : Text} :
    needsQuotes [d] field = true ↔ d ∈ field ∨ '"' ∈ field ∨ '\n' ∈ field ∨ '\r' ∈ field := by
  simp [needsQuotes, and_or_left, exists_or, or_assoc]

def writeField (delimiter : Text) (field : Text) : Text :=
  if needsQuotes delimiter field then
    '"' :: (doubleQuotes field ++ ['"'])
  else
    field

def write (delimiter : Text) (fields : List Text) : Text :=
  delimiter.intercalate (fields.map (writeField delimiter))

end Excerpt.Record
