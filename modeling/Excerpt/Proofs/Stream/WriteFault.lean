import Excerpt.Proofs.Stream.Faultless

/-!
This module contains transfers whose sink has room for some more writes only. Such a transfer is the one without a
fault, as long as all of its writes find room. Otherwise it writes what finds room and stops at the next write.
-/

namespace Excerpt

def Sink.limited (room : Nat) (kind : WriteFault) : Sink := ⟨some ⟨room, kind⟩⟩

namespace Extraction

variable {x : Extraction} {reader next : Reader} {line : Bytes} {lines : List Bytes} {text : Text} {room : Nat}
variable {kind : WriteFault} {stop : Stop} {sink : Sink}

theorem go_cons_of_silent (h : x.feed reader (Line.chomp line) = .ok (next, none)) :
    transfer.go x reader (line :: lines) none sink = transfer.go x next lines none sink := by
  rw [transfer.go, Fault.attempt_none]
  simp only [h]

theorem go_cons_limited_zero (h : x.feed reader (Line.chomp line) = .ok (next, some text)) :
    transfer.go x reader (line :: lines) none (.limited 0 kind)
      = ⟨[], some (.writeFailed kind), ⟨lines, none⟩, .limited 0 kind⟩ := by
  rw [transfer.go, Fault.attempt_none]
  simp only [h]
  rfl

theorem go_cons_limited_succ (h : x.feed reader (Line.chomp line) = .ok (next, some text)) :
    transfer.go x reader (line :: lines) none (.limited (room + 1) kind)
      = { transfer.go x next lines none (.limited room kind) with
          writes := (text ++ ['\n']) :: (transfer.go x next lines none (.limited room kind)).writes } := by
  rw [transfer.go, Fault.attempt_none]
  simp only [h]
  rfl

theorem go_limited_of_le (h : (transfer.go x reader lines none {}).writes.length ≤ room) :
    transfer.go x reader lines none (.limited room kind)
      = { transfer.go x reader lines none {} with
          sink := .limited (room - (transfer.go x reader lines none {}).writes.length) kind } := by
  induction lines generalizing reader room with
  | nil => rw [go_nil, go_nil, List.length_nil, Nat.sub_zero]
  | cons line lines ih =>
    cases hfeed : x.feed reader (Line.chomp line) with
    | error stop =>
      rw [go_cons_of_error hfeed, go_cons_of_error hfeed, List.length_nil, Nat.sub_zero]
    | ok fed =>
      obtain ⟨next, text⟩ := fed
      cases text with
      | none =>
        rw [go_cons_of_silent hfeed] at h
        rw [go_cons_of_silent hfeed, go_cons_of_silent hfeed, ih h]
      | some text =>
        rw [go_cons_of_ok hfeed] at h
        simp only [Option.map_some, Option.toList_some, List.singleton_append, List.length_cons] at h
        -- The first text takes one write of the room.
        obtain ⟨room, rfl⟩ := Nat.exists_eq_add_of_lt (Nat.lt_of_lt_of_le (Nat.succ_pos _) h)
        rw [Nat.zero_add, go_cons_limited_succ hfeed, go_cons_of_ok hfeed, ih (by omega)]
        simp

theorem go_limited_of_lt (h : room < (transfer.go x reader lines none {}).writes.length) :
    ∃ rest, transfer.go x reader lines none (.limited room kind)
      = ⟨(transfer.go x reader lines none {}).writes.take room, some (.writeFailed kind), ⟨rest, none⟩,
          .limited 0 kind⟩ := by
  induction lines generalizing reader room with
  | nil =>
    rw [go_nil] at h
    cases h
  | cons line lines ih =>
    cases hfeed : x.feed reader (Line.chomp line) with
    | error stop =>
      rw [go_cons_of_error hfeed] at h
      cases h
    | ok fed =>
      obtain ⟨next, text⟩ := fed
      cases text with
      | none =>
        rw [go_cons_of_silent hfeed] at h
        rw [go_cons_of_silent hfeed, go_cons_of_silent hfeed]
        exact ih h
      | some text =>
        cases room with
        | zero => exact ⟨lines, go_cons_limited_zero hfeed⟩
        | succ room =>
          rw [go_cons_of_ok hfeed] at h
          simp only [Option.map_some, Option.toList_some, List.singleton_append, List.length_cons] at h
          have hroom : room < (transfer.go x next lines none {}).writes.length := by omega
          obtain ⟨rest, hrest⟩ := ih hroom
          refine ⟨rest, ?_⟩
          rw [go_cons_limited_succ hfeed, go_cons_of_ok hfeed, hrest]
          rfl

theorem transfer_limited_of_le {source : Source} (hsource : source.fault = none)
    (h : (x.transfer source {}).writes.length ≤ room) :
    x.transfer source (.limited room kind)
      = { x.transfer source {} with sink := .limited (room - (x.transfer source {}).writes.length) kind } := by
  obtain ⟨lines, fault⟩ := source
  subst hsource
  exact go_limited_of_le h

theorem transfer_limited_of_lt {source : Source} (kind : WriteFault) (hsource : source.fault = none)
    (h : room < (x.transfer source {}).writes.length) :
    ∃ rest, x.transfer source (.limited room kind)
      = ⟨(x.transfer source {}).writes.take room, some (.writeFailed kind), ⟨rest, none⟩, .limited 0 kind⟩ := by
  obtain ⟨lines, fault⟩ := source
  subst hsource
  exact go_limited_of_lt h

end Extraction

end Excerpt
