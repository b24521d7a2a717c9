import Excerpt.Extraction
import Excerpt.Proofs.Utf8.Decoded

/-!
This module contains what selections pick out of a list, and how selecting bytes and selecting characters agree: where
byte spans begin and end between characters, decoding afterwards gives the characters between the same places.
-/

namespace Excerpt

def byteOffset (s : Text) (k : Nat) : Nat := (Utf8.encode (s.take k)).length

def Span.toBytes (s : Text) (span : Span) : Span := ⟨byteOffset s span.start, byteOffset s span.stop⟩

def Selection.toBytes (s : Text) (selection : Selection) : Selection := selection.map (Span.toBytes s)

section

variable {s : Text}

theorem byteOffset_add (s : Text) (k n : Nat) :
    byteOffset s (k + n) = byteOffset s k + (Utf8.encode ((s.drop k).take n)).length := by
  rw [byteOffset, List.take_add, Utf8.encode_append, List.length_append, byteOffset]

theorem byteOffset_le {k m : Nat} (h : k ≤ m) : byteOffset s k ≤ byteOffset s m := by
  rw [← Nat.add_sub_of_le h, byteOffset_add]
  exact Nat.le_add_right _ _

theorem encode_eq_append (s : Text) (k : Nat) : Utf8.encode s = Utf8.encode (s.take k) ++ Utf8.encode (s.drop k) := by
  rw [← Utf8.encode_append, List.take_append_drop]

theorem drop_byteOffset (s : Text) (k : Nat) : (Utf8.encode s).drop (byteOffset s k) = Utf8.encode (s.drop k) := by
  rw [encode_eq_append s k, byteOffset, List.drop_left]

theorem extract_byteOffset (s : Text) (start stop : Nat) :
    (Utf8.encode s).extract (byteOffset s start) (byteOffset s stop) = Utf8.encode (s.extract start stop) := by
  rw [List.extract_eq_take_drop, List.extract_eq_take_drop, drop_byteOffset]
  rcases Nat.le_total start stop with h | h
  . have hstop := byteOffset_add s start (stop - start)
    rw [Nat.add_sub_of_le h] at hstop
    rw [encode_eq_append (s.drop start) (stop - start), hstop, Nat.add_sub_cancel_left, List.take_left]
  . rw [Nat.sub_eq_zero_of_le h, Nat.sub_eq_zero_of_le (byteOffset_le h)]
    rfl

end

namespace Selection

variable {α : Type} {selection : Selection} {xs : List α} {a : α}

theorem mem_of_mem_select (h : a ∈ selection.select xs) : a ∈ xs := by
  obtain ⟨span, _, ha⟩ := List.mem_flatMap.mp h
  rw [List.extract_eq_take_drop] at ha
  exact List.mem_of_mem_drop (List.mem_of_mem_take ha)

theorem map_some_extract (span : Span) (xs : List α) :
    (xs.extract span.start span.stop).map some = (span.indices xs.length).map fun i => xs[i]? := by
  apply List.ext_getElem?
  intro i
  rw [List.getElem?_map, List.getElem?_map, List.extract_eq_take_drop, List.getElem?_take, List.getElem?_drop,
    Span.indices]
  by_cases hi : i < min span.stop xs.length - span.start
  . have hlength : span.start + i < xs.length := by omega
    rw [if_pos (by omega), List.getElem?_range' hi, List.getElem?_eq_getElem hlength]
    simp [hlength]
  . have hindices : (List.range' span.start (min span.stop xs.length - span.start))[i]? = none :=
      List.getElem?_eq_none (by rw [List.length_range']; omega)
    rw [hindices, Option.map_none, Option.map_eq_none_iff]
    split
    . apply List.getElem?_eq_none
      omega
    . rfl

theorem map_some_select (selection : Selection) (xs : List α) :
    (selection.select xs).map some = (selection.indices xs.length).map fun i => xs[i]? := by
  simp only [select, indices, List.map_flatMap, map_some_extract]

theorem select_toBytes (s : Text) (selection : Selection) :
    (selection.toBytes s).select (Utf8.encode s) = Utf8.encode (selection.select s) := by
  simp only [select, toBytes, List.flatMap_map, Span.toBytes, extract_byteOffset]
  simp only [Utf8.encode, List.flatMap_assoc]

theorem select_all {n : Nat} (h : xs.length ≤ n) : select [⟨0, n⟩] xs = xs := by
  simp [select, List.extract_eq_take_drop, List.take_of_length_le h]

end Selection

theorem selectBytes_eq_select (s : Text) (selection : Selection) :
    selectBytes (selection.toBytes s) (Utf8.encode s) = selection.select s
      ∧ ∀ (data : Bytes) (n : Nat), data.length ≤ n →
          selectBytes [⟨0, n⟩] data = Selection.select [⟨0, n⟩] (Utf8.decode data) := by
  constructor
  . rw [selectBytes, Selection.select_toBytes, Utf8.decode_encode]
  . intro data n h
    rw [selectBytes, Selection.select_all h, Selection.select_all (Nat.le_trans (Utf8.length_decode_le data) h)]

end Excerpt
