import Excerpt.Proofs.Line.Framing
import Excerpt.Proofs.Text.LineBreak
import Excerpt.Proofs.Utf8.Seam

/-!
This module contains the lines of decoded data. Whether the data is divided into lines and each line is decoded, or
the data is decoded as a whole and the text is divided, the same texts come out: neither a line feed nor a carriage
return is ever part of a longer character, so ill-formed bytes in front of one stay on their line. The lines of an
encoded text are the lines of the text, less a carriage return at the end of each.
-/

namespace Excerpt
namespace Line

variable {line rest : Bytes}

theorem decode_chomp (line : Bytes) :
    Utf8.decode (chomp (line ++ [0x0A])) = Text.dropReturn (Utf8.decode line) := by
  by_cases hreturn : line.getLast? = some 0x0D
  . obtain ⟨content, rfl⟩ := List.getLast?_eq_some_iff.mp hreturn
    have hdecode : Utf8.decode (content ++ [0x0D]) = Utf8.decode content ++ ['\r'] :=
      Utf8.decode_append_cons (by decide)
    rw [List.append_assoc, List.singleton_append, chomp_append_return_lineFeed, hdecode, Text.dropReturn_append_return]
  . rw [chomp_append_lineFeed hreturn, Text.dropReturn_of_ne (Utf8.getLast?_decode_ne_return hreturn)]

theorem texts_append_lineFeed (h : 0x0A ∉ line) :
    texts (line ++ 0x0A :: rest) = Text.dropReturn (Utf8.decode line) :: texts rest := by
  rw [texts, split_append_lineFeed h, List.map_cons, decode_chomp]
  rfl

theorem texts_of_not_mem (hne : line ≠ []) (h : 0x0A ∉ line) : texts line = [Utf8.decode line] := by
  have hlast : line.getLast? ≠ some 0x0A := fun hlast => h (List.mem_of_getLast? hlast)
  rw [texts, split_of_not_mem hne h, List.map_singleton, chomp_of_getLast?_ne hlast]

theorem texts_eq_lines_decode (data : Bytes) : texts data = Text.lines (Utf8.decode data) := by
  induction data using linewise with
  | nil => rfl
  | last line hne hline =>
    rw [texts_of_not_mem hne hline, Text.lines_of_not_mem (Utf8.decode_ne_nil hne) (Utf8.lineFeed_not_mem_decode hline)]
  | more line rest hline ih =>
    have hdecode : Utf8.decode (line ++ 0x0A :: rest) = Utf8.decode line ++ '\n' :: Utf8.decode rest :=
      Utf8.decode_append_cons (by decide)
    rw [texts_append_lineFeed hline, hdecode, Text.lines_append_lineFeed (Utf8.lineFeed_not_mem_decode hline), ih]

/-- A line break cuts a character short, and the carriage return at the end of the data is kept. -/
example : texts [0x61, 0xE2, 0x82, 0x0D, 0x0A, 0x62, 0x0D] = [['a', Utf8.replacement], ['b', '\r']] := by decide

theorem texts_encode_cons {line rest : Text} (h : '\n' ∉ line) :
    texts (Utf8.encode (line ++ '\n' :: rest)) = Text.dropReturn line :: texts (Utf8.encode rest) := by
  have hencode : Utf8.encode (line ++ '\n' :: rest) = Utf8.encode line ++ 0x0A :: Utf8.encode rest := by
    rw [Utf8.encode_append]
    rfl
  rw [hencode, texts_append_lineFeed (Utf8.lineFeed_not_mem_encode h), Utf8.decode_encode]

theorem texts_encode_append {s rest : Text} (h : s.getLast? ≠ some '\r') :
    texts (Utf8.encode (s ++ '\n' :: rest)) = (Text.unifyBreaks s).splitOn '\n' ++ texts (Utf8.encode rest) := by
  induction s using Text.linewise with
  | last line hline =>
    -- The last line feed is the one behind `s`, and no carriage return stands before it.
    rw [texts_encode_cons hline, Text.dropReturn_of_ne h, Text.unifyBreaks_of_not_mem hline,
      List.splitOn_eq_singleton hline, List.singleton_append]
  | more line s hline ih =>
    have hdrop : '\n' ∉ Text.dropReturn line := by
      intro hmem
      exact hline (Text.mem_of_mem_dropReturn hmem)
    have hlast : s.getLast? ≠ some '\r' := by
      cases s with
      | nil => simp
      | cons c s => simpa using h
    rw [List.append_assoc, List.cons_append, texts_encode_cons hline, ih hlast,
      Text.unifyBreaks_append_lineFeed hline, List.splitOn_append_cons_self_of_not_mem hdrop, List.cons_append]

end Line
end Excerpt
