import Excerpt.Proofs.Run.Turns
import Excerpt.Proofs.Stream.Faultless

/-!
This module contains why a run does not crash: a mode that means something has an answer to every line, and a name
without a null character to every failure. This holds whatever faults the streams have.
-/

namespace Excerpt

namespace Extraction

variable {x : Extraction} {reader : Reader} {lines : List Bytes} {fault : Option (Fault ReadFault)} {sink : Sink}
variable {source : Source} {name : Text} {c : Crash} {entry : Text → Entry} {ends : Ends}

theorem stop_go_ne_unknownMode (hx : ∀ mode, x.mode ≠ .unknown mode) (mode : Text) :
    (transfer.go x reader lines fault sink).stop ≠ some (.unknownMode mode) := by
  fun_induction transfer.go x reader lines fault sink with
  | case1 => simp
  | case2 => simp
  | case3 reader fault sink ahead _ line lines stop hstop =>
    rintro ⟨⟩
    rcases feed_eq_error hstop with ⟨delimiter, e, _, hmalformed⟩ | ⟨mode', hmode, _⟩
    . cases hmalformed
    . exact hx mode' hmode
  | case4 reader fault sink ahead _ line lines next _ ih => exact ih
  | case5 => simp
  | case6 reader fault sink ahead _ line lines next text _ room _ rest ih => exact ih

theorem outcome_transfer_ne_crash (hx : ∀ mode, x.mode ≠ .unknown mode) :
    (x.transfer source sink).outcome ≠ .error (.crash c) := by
  intro h
  rw [Transfer.outcome] at h
  split at h
  . cases h
  . next stop hstop =>
    cases stop with
    | malformed e => cases h
    | unknownMode mode => exact stop_go_ne_unknownMode hx mode hstop
    | readFailed kind => cases kind <;> cases h
    | writeFailed kind => cases kind <;> cases h

theorem outcome_visit_ne_crash (hx : ∀ mode, x.mode ≠ .unknown mode) (hname : '\x00' ∉ name) :
    (x.visit entry ends name).outcome ≠ .error (.crash c) := by
  rcases x.visit_cases entry name with ⟨_, hvisit⟩ | ⟨_, data, hvisit⟩ | ⟨_, outcome, houtcome, hvisit⟩
  . rw [hvisit]
    exact outcome_transfer_ne_crash hx
  . rw [hvisit]
    exact outcome_transfer_ne_crash hx
  . rw [hvisit]
    rcases houtcome with ⟨_, hnull⟩ | rfl | ⟨e, rfl⟩
    . exact absurd hnull hname
    . simp
    . simp

end Extraction

theorem Run.abort_ne_crash {x : Extraction} {names : List Text} (program : Text) (entry : Text → Entry) (ends : Ends)
    (hx : ∀ mode, x.mode ≠ .unknown mode) (hnames : ∀ name ∈ names, '\x00' ∉ name) (c : Crash) :
    (ofNames x program entry ends names).abort ≠ some (.crash c) := by
  intro h
  obtain ⟨turn, hturn, houtcome, _⟩ := stopsAt_of_abort h
  exact Extraction.outcome_visit_ne_crash hx (hnames turn.name (name_mem_of_turn hturn)) houtcome

end Excerpt
