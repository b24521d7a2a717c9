import Excerpt.Proofs.Stream.Faultless

/-!
This module contains transfers whose source fails after some more reads. Up to the fault such a transfer is the one of
the source that ends there. What it has not written by then, it does not write: where the source that ends tells of a
record that is not complete, the one that fails only tells of its fault.
-/

namespace Excerpt

/--
The source as far as it can be read before its fault, as if it ended there.
-/
def Source.cut (source : Source) : Source :=
  match source.fault with
  | none => source
  | some fault => ⟨source.lines.take fault.after, none⟩

namespace Extraction

/--
How often a transfer reads if no read fails: once for each line that it gets to, and once more to find that none is
left.
-/
def reads (x : Extraction) (reader : Reader) : List Bytes → Nat
  | [] => 1
  | line :: lines =>
    match x.feed reader (Line.chomp line) with
    | .error _ => 1
    | .ok (next, _) => reads x next lines + 1

variable {x : Extraction} {reader next : Reader} {line : Bytes} {lines : List Bytes} {text : Option Text} {n : Nat}
variable {kind : ReadFault} {stop : Stop}

theorem reads_pos : 0 < x.reads reader lines := by
  cases lines with
  | nil => exact Nat.one_pos
  | cons line lines =>
    unfold reads
    split
    . exact Nat.one_pos
    . exact Nat.succ_pos _

theorem reads_cons_of_error (h : x.feed reader (Line.chomp line) = .error stop) :
    x.reads reader (line :: lines) = 1 := by
  rw [reads, h]

theorem reads_cons_of_ok (h : x.feed reader (Line.chomp line) = .ok (next, text)) :
    x.reads reader (line :: lines) = x.reads next lines + 1 := by
  rw [reads, h]

theorem go_due :
    transfer.go x reader lines (some ⟨0, kind⟩) {}
      = ⟨[], some (.readFailed kind), ⟨lines, some ⟨0, kind⟩⟩, {}⟩ := by
  rw [transfer.go]
  rfl

theorem go_ahead_nil :
    transfer.go x reader [] (some ⟨n + 1, kind⟩) {}
      = ⟨[], reader.close.map .malformed, ⟨[], some ⟨n, kind⟩⟩, {}⟩ := by
  rw [transfer.go]
  rfl

theorem go_ahead_cons_of_error (h : x.feed reader (Line.chomp line) = .error stop) :
    transfer.go x reader (line :: lines) (some ⟨n + 1, kind⟩) {}
      = ⟨[], some stop, ⟨lines, some ⟨n, kind⟩⟩, {}⟩ := by
  rw [transfer.go]
  simp only [Fault.attempt, h]

theorem go_ahead_cons_of_ok (h : x.feed reader (Line.chomp line) = .ok (next, text)) :
    transfer.go x reader (line :: lines) (some ⟨n + 1, kind⟩) {}
      = { transfer.go x next lines (some ⟨n, kind⟩) {} with
          writes := (text.map (· ++ ['\n'])).toList ++ (transfer.go x next lines (some ⟨n, kind⟩) {}).writes } := by
  rw [transfer.go]
  cases text with
  | none => simp only [Fault.attempt, h, Option.map_none, Option.toList_none, List.nil_append]
  | some text => simp only [Fault.attempt, h, Option.map_some, Option.toList_some, List.singleton_append]

theorem go_of_lt_reads (kind : ReadFault) (h : n < x.reads reader lines) :
    ∃ writes rest last,
      transfer.go x reader lines (some ⟨n, kind⟩) {}
          = ⟨writes, some (.readFailed kind), ⟨rest, some ⟨0, kind⟩⟩, {}⟩
        ∧ transfer.go x reader (lines.take n) none {}
          = ⟨writes, (Reader.close last).map .malformed, ⟨[], none⟩, {}⟩ := by
  induction n generalizing reader lines with
  | zero => exact ⟨[], lines, reader, go_due, go_nil⟩
  | succ n ih =>
    cases lines with
    | nil =>
      rw [reads] at h
      omega
    | cons line lines =>
      cases hfeed : x.feed reader (Line.chomp line) with
      | error stop =>
        rw [reads_cons_of_error hfeed] at h
        omega
      | ok fed =>
        obtain ⟨next, text⟩ := fed
        rw [reads_cons_of_ok hfeed] at h
        obtain ⟨writes, rest, last, hfault, hcut⟩ := ih (Nat.lt_of_succ_lt_succ h)
        refine ⟨(text.map (· ++ ['\n'])).toList ++ writes, rest, last, ?_, ?_⟩
        . rw [go_ahead_cons_of_ok hfeed, hfault]
        . rw [List.take_succ_cons, go_cons_of_ok hfeed, hcut]

theorem go_of_reads_le (kind : ReadFault) (h : x.reads reader lines ≤ n) :
    ∃ writes stop rest left,
      transfer.go x reader lines (some ⟨n, kind⟩) {} = ⟨writes, stop, ⟨rest, some ⟨left, kind⟩⟩, {}⟩
        ∧ transfer.go x reader (lines.take n) none {} = ⟨writes, stop, ⟨rest.take left, none⟩, {}⟩ := by
  induction n generalizing reader lines with
  | zero => exact absurd h (Nat.not_le.mpr reads_pos)
  | succ n ih =>
    cases lines with
    | nil => exact ⟨[], _, [], n, go_ahead_nil, by rw [List.take_nil, List.take_nil, go_nil]⟩
    | cons line lines =>
      rw [List.take_succ_cons]
      cases hfeed : x.feed reader (Line.chomp line) with
      | error stop => exact ⟨[], some stop, lines, n, go_ahead_cons_of_error hfeed, go_cons_of_error hfeed⟩
      | ok fed =>
        obtain ⟨next, text⟩ := fed
        rw [reads_cons_of_ok hfeed] at h
        obtain ⟨writes, stop, rest, left, hfault, hcut⟩ := ih (Nat.le_of_succ_le_succ h)
        refine ⟨(text.map (· ++ ['\n'])).toList ++ writes, stop, rest, left, ?_, ?_⟩
        . rw [go_ahead_cons_of_ok hfeed, hfault]
        . rw [go_cons_of_ok hfeed, hcut]

end Extraction

end Excerpt
