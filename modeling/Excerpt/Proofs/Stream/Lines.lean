import Excerpt.Proofs.Line.Framing
import Excerpt.Proofs.Selection.Select
import Excerpt.Proofs.Stream.Faultless

/-!
This module contains byte and character mode on a stream. Nothing stops them: every line gives one text, which depends
on that line alone, and whatever is selected from a line, no line feed can come out of it.
-/

namespace Excerpt
namespace Extraction

variable {x : Extraction} {reader : Reader} {lines : List Bytes}

theorem exists_text (hmode : x.mode = .bytes ∨ x.mode = .chars) :
    ∃ text : Bytes → Text,
      ∀ line, x.ofBytes line = .ok (text line) ∧ ∀ reader, x.feed reader line = .ok (reader, some (text line)) := by
  have hfields : ∀ delimiter, x.mode ≠ .fields delimiter := by rcases hmode with hmode | hmode <;> simp [hmode]
  obtain ⟨text, htext⟩ : ∃ text : Bytes → Text, ∀ line, x.ofBytes line = .ok (text line) := by
    obtain ⟨mode, selection⟩ := x
    rcases hmode with rfl | rfl
    . exact ⟨selectBytes selection, fun line => rfl⟩
    . exact ⟨fun line => selection.select (Utf8.decode line), fun line => rfl⟩
  refine ⟨text, fun line => ⟨htext line, fun reader => ?_⟩⟩
  rw [feed_of_not_fields hfields, htext line]

theorem takes_of_text {text : Bytes → Text} (h : ∀ line reader, x.feed reader line = .ok (reader, some (text line))) :
    Takes x reader lines (lines.map fun line => text (Line.chomp line) ++ ['\n']) reader := by
  induction lines with
  | nil => exact .nil
  | cons line lines ih => exact .cons (h (Line.chomp line) reader) ih

theorem ofBytes_of_chars (hmode : x.mode = .chars) (line : Bytes) : x.ofBytes line = x.ofText (Utf8.decode line) := by
  simp only [ofBytes, hmode]

theorem lineFeed_not_mem_of_ofBytes {line : Bytes} {text : Text} (hmode : x.mode = .bytes ∨ x.mode = .chars)
    (h : x.ofBytes line = .ok text) (hline : 0x0A ∉ line) : '\n' ∉ text := by
  obtain ⟨mode, selection⟩ := x
  rcases hmode with rfl | rfl
  . have htext : selectBytes selection line = text := Except.ok.inj h
    rw [← htext]
    apply Utf8.lineFeed_not_mem_decode
    exact fun hmem => hline (Selection.mem_of_mem_select hmem)
  . have htext : selection.select (Utf8.decode line) = text := Except.ok.inj h
    rw [← htext]
    intro hmem
    exact Utf8.lineFeed_not_mem_decode hline (Selection.mem_of_mem_select hmem)

theorem transfer_lines (x : Extraction) (hmode : x.mode = .bytes ∨ x.mode = .chars) (data : Bytes) :
    let t := x.transfer (.ofBytes data) {}
    t.stop = none
      ∧ t.writes.length = data.count 0x0A + (if data = [] ∨ data.getLast? = some 0x0A then 0 else 1)
      ∧ (∀ text ∈ t.writes, ∃ line, '\n' ∉ line ∧ text = line ++ ['\n'])
      ∧ (∀ (k : Nat) (line : Bytes), (Line.split data)[k]? = some line →
          ∃ (content : Bytes) (text : Text),
            Line.HasContent line content
              ∧ (x.mode = .bytes → x.ofBytes content = .ok text)
              ∧ (x.mode = .chars → x.ofText (Utf8.decode content) = .ok text)
              ∧ t.writes[k]? = some (text ++ ['\n']))
      ∧ (∀ xs : Bytes, (x.selection.select xs).map some = (x.selection.indices xs.length).map fun i => xs[i]?)
      ∧ ∀ xs : Text, (x.selection.select xs).map some = (x.selection.indices xs.length).map fun i => xs[i]? := by
  obtain ⟨text, htext⟩ := exists_text hmode
  intro t
  have ht : t = ⟨(Line.split data).map fun line => text (Line.chomp line) ++ ['\n'], none, ⟨[], none⟩, {}⟩ :=
    (takes_of_text fun line => (htext line).2).go_eq
  rw [ht]
  refine ⟨rfl, ?_, ?_, ?_, Selection.map_some_select x.selection, Selection.map_some_select x.selection⟩
  . rw [List.length_map, Line.length_split]
  . intro written hmem
    obtain ⟨line, hline, rfl⟩ := List.mem_map.mp hmem
    refine ⟨text (Line.chomp line), ?_, rfl⟩
    exact lineFeed_not_mem_of_ofBytes hmode (htext _).1 (Line.lineFeed_not_mem_chomp hline)
  . intro k line hline
    refine ⟨Line.chomp line, text (Line.chomp line), Line.hasContent_iff.mpr rfl, fun _ => (htext _).1, ?_, ?_⟩
    . intro hchars
      rw [← ofBytes_of_chars hchars]
      exact (htext _).1
    . rw [List.getElem?_map, hline, Option.map_some]

theorem transfer_lines_bytes :
    let x : Extraction := ⟨.bytes, [⟨1, 2⟩, ⟨0, 1⟩]⟩
    let t := x.transfer (.ofBytes [0xC3, 0xA9, 0x0D, 0x0A, 0x61]) {}
    (x.mode = .bytes ∨ x.mode = .chars)
      ∧ t.stop = none
      ∧ t.writes.length = 2
      ∧ ∀ text ∈ t.writes, ∃ line, '\n' ∉ line ∧ text = line ++ ['\n'] := by
  intro x t
  have h := transfer_lines x (.inl rfl) [0xC3, 0xA9, 0x0D, 0x0A, 0x61]
  exact ⟨.inl rfl, h.1, h.2.1, h.2.2.1⟩

end Extraction
end Excerpt
