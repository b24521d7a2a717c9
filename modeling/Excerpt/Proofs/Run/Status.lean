import Excerpt.Proofs.Run.Crash
import Excerpt.Proofs.Run.Parts

/-!
This module contains the exit status of a run as a flag that is kept from name to name, beside what has been told and
written so far. A run ends early if and only if that loop does, with the same cause; otherwise the flag behind the last
name is the status of the run. Faults that a run can complain about do not end it, so it gets to every name; and
whatever fails, the flag is up if and only if something has been told.
-/

namespace Excerpt

namespace Fault

def Only {κ : Type} (kind : κ) (fault : Option (Fault κ)) : Prop := ∀ f ∈ fault, f.kind = kind

theorem only_none {κ : Type} {kind : κ} : Only kind none := by simp [Only]

theorem Only.of_error {κ : Type} {kind kind' : κ} {fault : Option (Fault κ)} (h : Only kind fault)
    (hattempt : attempt fault = .error kind') : kind' = kind := by
  unfold attempt at hattempt
  split at hattempt
  . cases hattempt
  . cases hattempt
    exact h _ rfl
  . cases hattempt

theorem Only.of_ok {κ : Type} {kind : κ} {fault ahead : Option (Fault κ)} (h : Only kind fault)
    (hattempt : attempt fault = .ok ahead) : Only kind ahead := by
  unfold attempt at hattempt
  split at hattempt
  . cases hattempt
    exact only_none
  . cases hattempt
  . next after kind' =>
    cases hattempt
    rintro f ⟨⟩
    exact h ⟨after + 1, kind'⟩ rfl

end Fault

/--
Both ends have at most faults that are told of and do not end a run.
-/
structure Ends.Lenient (ends : Ends) : Prop where
  stdin : Fault.Only .inputOutput ends.stdin.fault
  sink : Fault.Only .noSpace ends.sink.fault

namespace Extraction

variable {x : Extraction} {reader : Reader} {lines : List Bytes} {fault : Option (Fault ReadFault)} {sink : Sink}
variable {entry : Text → Entry} {ends : Ends} {name : Text}

theorem go_of_only (x : Extraction) (reader : Reader) (lines : List Bytes) (hfault : Fault.Only .inputOutput fault)
    (hsink : Fault.Only .noSpace sink.fault) :
    let t := transfer.go x reader lines fault sink
    t.stop ≠ some (.readFailed .interrupt)
      ∧ t.stop ≠ some (.writeFailed .brokenPipe)
      ∧ Fault.Only .inputOutput t.source.fault
      ∧ Fault.Only .noSpace t.sink.fault := by
  fun_induction transfer.go x reader lines fault sink with
  | case1 lines reader fault sink kind hread =>
    cases hfault.of_error hread
    exact ⟨by simp, by simp, hfault, hsink⟩
  | case2 reader fault sink ahead hread =>
    refine ⟨?_, ?_, hfault.of_ok hread, hsink⟩
    . cases reader.close <;> simp
    . cases reader.close <;> simp
  | case3 reader fault sink ahead hread line lines stop hstop =>
    rcases feed_eq_error hstop with ⟨_, e, _, rfl⟩ | ⟨mode, _, rfl⟩
    . exact ⟨by simp, by simp, hfault.of_ok hread, hsink⟩
    . exact ⟨by simp, by simp, hfault.of_ok hread, hsink⟩
  | case4 reader fault sink ahead hread line lines next _ ih => exact ih (hfault.of_ok hread) hsink
  | case5 reader fault sink ahead hread line lines next text _ kind hwrite =>
    cases hsink.of_error hwrite
    exact ⟨by simp, by simp, hfault.of_ok hread, hsink⟩
  | case6 reader fault sink ahead hread line lines next text _ room hwrite _ ih =>
    exact ih (hfault.of_ok hread) (hsink.of_ok hwrite)

theorem transfer_of_only {source : Source} (hx : ∀ mode, x.mode ≠ .unknown mode)
    (hsource : Fault.Only .inputOutput source.fault) (hsink : Fault.Only .noSpace sink.fault) :
    (∃ complaint, (x.transfer source sink).outcome = .ok complaint)
      ∧ Fault.Only .inputOutput (x.transfer source sink).source.fault
      ∧ Fault.Only .noSpace (x.transfer source sink).sink.fault := by
  obtain ⟨hinterrupt, hbroken, hsource', hsink'⟩ := go_of_only x {} source.lines hsource hsink
  refine ⟨?_, hsource', hsink'⟩
  rw [Transfer.outcome, transfer]
  cases hstop : (transfer.go x {} source.lines source.fault sink).stop with
  | none => exact ⟨none, rfl⟩
  | some stop =>
    cases stop with
    | malformed e => exact ⟨_, rfl⟩
    | unknownMode mode => exact absurd hstop (stop_go_ne_unknownMode hx mode)
    | readFailed kind =>
      cases kind with
      | inputOutput => exact ⟨_, rfl⟩
      | interrupt => exact absurd hstop hinterrupt
    | writeFailed kind =>
      cases kind with
      | brokenPipe => exact absurd hstop hbroken
      | noSpace => exact ⟨_, rfl⟩

theorem visit_of_lenient (entry : Text → Entry) (hx : ∀ mode, x.mode ≠ .unknown mode) (hname : '\x00' ∉ name)
    (h : ends.Lenient) :
    (∃ complaint, (x.visit entry ends name).outcome = .ok complaint) ∧ (x.visit entry ends name).ends.Lenient := by
  rcases x.visit_cases entry name with ⟨_, hvisit⟩ | ⟨_, data, hvisit⟩ | ⟨_, outcome, houtcome, hvisit⟩
  . obtain ⟨houtcome, hsource, hsink⟩ := transfer_of_only hx h.stdin h.sink
    rw [hvisit]
    exact ⟨houtcome, hsource, hsink⟩
  . have hsource : Fault.Only .inputOutput (Source.ofBytes data).fault := Fault.only_none
    obtain ⟨houtcome, _, hsink⟩ := transfer_of_only hx hsource h.sink
    rw [hvisit]
    exact ⟨houtcome, h.stdin, hsink⟩
  . rw [hvisit]
    rcases houtcome with ⟨_, hnull⟩ | rfl | ⟨e, rfl⟩
    . exact absurd hnull hname
    . exact ⟨⟨_, rfl⟩, h⟩
    . exact ⟨⟨_, rfl⟩, h⟩

end Extraction

namespace Run

structure State where
  status : Nat := 0
  writes : List Text := []
  diagnostics : List Diagnostic := []
  ends : Ends

namespace State

def done (s : State) : Run where
  writes := s.writes
  diagnostics := s.diagnostics

/--
Takes the turn of one name. The status is set where something is told, and never set back.
-/
def attempt (x : Extraction) (program : Text) (entry : Text → Entry) (s : State) (name : Text) : Except Abort State :=
  let visit := x.visit entry s.ends name
  match visit.outcome with
  | .error abort => .error abort
  | .ok none => .ok { s with writes := s.writes ++ visit.writes, ends := visit.ends }
  | .ok (some complaint) =>
    .ok {
      status := 1
      writes := s.writes ++ visit.writes
      diagnostics := s.diagnostics ++ [⟨program, name, complaint⟩]
      ends := visit.ends
    }

def Consistent (s : State) : Prop := s.status = s.done.status

section

variable {x : Extraction} {program name : Text} {entry : Text → Entry} {s next last : State}
variable {names front more : List Text} {complaint : Option Complaint}

theorem attempt_of_ok (h : (x.visit entry s.ends name).outcome = .ok complaint) :
    s.attempt x program entry name
      = .ok ⟨if complaint = none then s.status else 1, s.writes ++ (x.visit entry s.ends name).writes,
          s.diagnostics ++ (complaint.map (Diagnostic.mk program name)).toList, (x.visit entry s.ends name).ends⟩ := by
  cases complaint with
  | none => simp [attempt, h]
  | some complaint => simp [attempt, h]

theorem attempt_eq_ok (h : s.attempt x program entry name = .ok next) :
    ∃ complaint, (x.visit entry s.ends name).outcome = .ok complaint
      ∧ next = ⟨if complaint = none then s.status else 1, s.writes ++ (x.visit entry s.ends name).writes,
          s.diagnostics ++ (complaint.map (Diagnostic.mk program name)).toList, (x.visit entry s.ends name).ends⟩ := by
  cases houtcome : (x.visit entry s.ends name).outcome with
  | error abort => simp [attempt, houtcome] at h
  | ok complaint => exact ⟨complaint, rfl, Except.ok.inj (h.symm.trans (attempt_of_ok houtcome))⟩

theorem attempt_eq_error {abort : Abort} (h : s.attempt x program entry name = .error abort) :
    (x.visit entry s.ends name).outcome = .error abort := by
  cases houtcome : (x.visit entry s.ends name).outcome with
  | error abort' => simpa [attempt, houtcome] using h
  | ok complaint =>
    rw [attempt_of_ok houtcome] at h
    cases h

theorem foldlM_attempt_cons (h : (name :: names).foldlM (attempt x program entry) s = .ok last) :
    ∃ next, s.attempt x program entry name = .ok next ∧ names.foldlM (attempt x program entry) next = .ok last := by
  rw [List.foldlM_cons] at h
  cases hnext : s.attempt x program entry name with
  | error abort =>
    rw [hnext] at h
    cases h
  | ok next =>
    rw [hnext] at h
    exact ⟨next, rfl, h⟩

theorem Consistent.attempt (hs : s.Consistent) (h : s.attempt x program entry name = .ok next) : next.Consistent := by
  obtain ⟨complaint, _, rfl⟩ := attempt_eq_ok h
  cases complaint with
  | none =>
    rw [Consistent, done, Option.map_none, Option.toList_none, List.append_nil]
    exact hs
  | some complaint => simp [Consistent, done, Run.status]

theorem Consistent.foldlM_attempt (hs : s.Consistent) (h : names.foldlM (State.attempt x program entry) s = .ok last) :
    last.Consistent := by
  induction names generalizing s with
  | nil =>
    cases h
    exact hs
  | cons name names ih =>
    obtain ⟨next, hnext, hmore⟩ := foldlM_attempt_cons h
    exact ih (hs.attempt hnext) hmore

theorem ofNames_append (h : front.foldlM (attempt x program entry) s = .ok last) (more : List Text) :
    let run := ofNames x program entry s.ends (front ++ more)
    let rest := ofNames x program entry last.ends more
    s.writes ++ run.writes = last.writes ++ rest.writes
      ∧ s.diagnostics ++ run.diagnostics = last.diagnostics ++ rest.diagnostics
      ∧ run.abort = rest.abort := by
  induction front generalizing s with
  | nil =>
    cases h
    exact ⟨rfl, rfl, rfl⟩
  | cons name front ih =>
    obtain ⟨next, hnext, hmore⟩ := foldlM_attempt_cons h
    obtain ⟨complaint, houtcome, rfl⟩ := attempt_eq_ok hnext
    obtain ⟨hwrites, hdiagnostics, habort⟩ := ih hmore
    rw [List.cons_append, ofNames_cons_of_ok houtcome]
    refine ⟨?_, ?_, habort⟩
    . rw [← hwrites, List.append_assoc]
    . rw [← hdiagnostics, List.append_assoc]

theorem abort_ofNames_of_error {abort : Abort} (h : names.foldlM (attempt x program entry) s = .error abort) :
    (ofNames x program entry s.ends names).abort = some abort := by
  induction names generalizing s with
  | nil => cases h
  | cons name names ih =>
    rw [List.foldlM_cons] at h
    cases hnext : s.attempt x program entry name with
    | error abort' =>
      rw [hnext] at h
      cases h
      rw [ofNames_cons_of_error (attempt_eq_error hnext)]
    | ok next =>
      rw [hnext] at h
      obtain ⟨complaint, houtcome, rfl⟩ := attempt_eq_ok hnext
      rw [ofNames_cons_of_ok houtcome]
      exact ih h

theorem ofNames_of_foldlM_ok {ends : Ends} (h : names.foldlM (attempt x program entry) { ends := ends } = .ok last) :
    ofNames x program entry ends names = last.done ∧ last.Consistent := by
  obtain ⟨hwrites, hdiagnostics, habort⟩ := ofNames_append h []
  simp only [List.append_nil, List.nil_append, ofNames] at hwrites hdiagnostics habort
  have hbegin : Consistent { ends := ends } := rfl
  refine ⟨?_, hbegin.foldlM_attempt h⟩
  rw [done, ← hwrites, ← hdiagnostics, ← habort]

theorem foldlM_attempt_of_lenient (program : Text) (entry : Text → Entry) (hx : ∀ mode, x.mode ≠ .unknown mode)
    (hnames : ∀ name ∈ names, '\x00' ∉ name) (hs : s.ends.Lenient) :
    ∃ last, names.foldlM (attempt x program entry) s = .ok last ∧ last.ends.Lenient := by
  induction names generalizing s with
  | nil => exact ⟨s, rfl, hs⟩
  | cons name names ih =>
    obtain ⟨hname, hmore⟩ := List.forall_mem_cons.mp hnames
    obtain ⟨⟨complaint, houtcome⟩, hends⟩ := Extraction.visit_of_lenient entry hx hname hs
    obtain ⟨next, hnext, heq⟩ : ∃ next, s.attempt x program entry name = .ok next
        ∧ next.ends = (x.visit entry s.ends name).ends := ⟨_, attempt_of_ok houtcome, rfl⟩
    obtain ⟨last, hlast, hlenient⟩ := ih hmore (heq ▸ hends)
    refine ⟨last, ?_, hlenient⟩
    rw [List.foldlM_cons, hnext]
    exact hlast

end

end State

theorem status_eq (run : Run) : run.status = 0 ∨ run.status = 1 := by
  unfold status
  split
  . exact .inl rfl
  . exact .inr rfl

theorem status_eq_one_iff {run : Run} : run.status = 1 ↔ run.report ≠ [] := by
  rw [ne_eq, report_eq_nil, status]
  split <;> simp_all

/--
A run that is not ended early gets to its last name, and there the flag is its status.
-/
theorem abort_eq_none_iff (x : Extraction) (program : Text) (entry : Text → Entry) (ends : Ends) (names : List Text) :
    let run := ofNames x program entry ends names
    run.abort = none
      ↔ ∃ last, names.foldlM (State.attempt x program entry) { ends := ends } = .ok last
          ∧ run = last.done
          ∧ run.status = last.status := by
  intro run
  constructor
  . intro habort
    cases hfold : names.foldlM (State.attempt x program entry) { ends := ends } with
    | error abort =>
      have hended : run.abort = some abort := State.abort_ofNames_of_error hfold
      rw [habort] at hended
      cases hended
    | ok last =>
      obtain ⟨hdone, hconsistent⟩ := State.ofNames_of_foldlM_ok hfold
      exact ⟨last, rfl, hdone, (congrArg status hdone).trans hconsistent.symm⟩
  . rintro ⟨last, _, hdone, _⟩
    exact congrArg Run.abort hdone

theorem abort_eq_some_iff (x : Extraction) (program : Text) (entry : Text → Entry) (ends : Ends) (names : List Text)
    (abort : Abort) :
    (ofNames x program entry ends names).abort = some abort
      ↔ names.foldlM (State.attempt x program entry) { ends := ends } = .error abort := by
  constructor
  . intro habort
    cases hfold : names.foldlM (State.attempt x program entry) { ends := ends } with
    | error abort' =>
      have hended := State.abort_ofNames_of_error hfold
      rw [habort, Option.some.injEq] at hended
      rw [hended]
    | ok last =>
      rw [(State.ofNames_of_foldlM_ok hfold).1, State.done] at habort
      cases habort
  . exact State.abort_ofNames_of_error

theorem ofNames_lenient (x : Extraction) (program : Text) (entry : Text → Entry) (ends : Ends) (names : List Text)
    (hx : ∀ mode, x.mode ≠ .unknown mode) (hnames : ∀ name ∈ names, '\x00' ∉ name) (hends : ends.Lenient) :
    let run := ofNames x program entry ends names
    let after := List.foldlM (State.attempt x program entry) { ends := ends }
    run.abort = none
      ∧ (∃ last, after names = .ok last ∧ run = last.done ∧ run.status = last.status)
      ∧ (run.status = 0 ∨ run.status = 1)
      ∧ (run.status = 1 ↔ run.report ≠ [])
      ∧ ∀ front name back, names = front ++ name :: back →
          ∃ s, after front = .ok s
            ∧ (s.status = 0 ∨ s.status = 1)
            ∧ (s.status = 1 ↔ s.done.report ≠ [])
            ∧ (let visit := x.visit entry s.ends name
              let later := ofNames x program entry visit.ends back
              run.output = s.done.output ++ visit.writes.flatten ++ later.output
                ∧ (visit.outcome = .ok none ∧ run.report = s.done.report ++ later.report
                  ∨ ∃ complaint, visit.outcome = .ok (some complaint)
                    ∧ run.report
                      = s.done.report ++ (program ++ ": ".toList ++ name ++ ": ".toList ++ complaint.message ++ ['\n'])
                        ++ later.report)) := by
  intro run after
  have hbegin : State.Consistent { ends := ends } := rfl
  obtain ⟨last, hlast, _⟩ :=
    State.foldlM_attempt_of_lenient (s := { ends := ends }) program entry hx hnames hends
  have habort : run.abort = none := by
    cases hended : run.abort with
    | none => rfl
    | some abort =>
      rw [abort_eq_some_iff, hlast] at hended
      cases hended
  have hflag := (abort_eq_none_iff x program entry ends names).mp habort
  refine ⟨habort, hflag, status_eq run, status_eq_one_iff, ?_⟩
  rintro front name back rfl
  obtain ⟨hfront, hname⟩ := List.forall_mem_append.mp hnames
  obtain ⟨s, hs, hlenient⟩ :=
    State.foldlM_attempt_of_lenient (s := { ends := ends }) program entry hx hfront hends
  have hconsistent : s.status = s.done.status := hbegin.foldlM_attempt hs
  refine ⟨s, hs, hconsistent ▸ status_eq s.done, hconsistent ▸ status_eq_one_iff, ?_⟩
  obtain ⟨⟨complaint, houtcome⟩, _⟩ :=
    Extraction.visit_of_lenient entry hx (hname name (.head _)) hlenient
  obtain ⟨hwrites, hdiagnostics, _⟩ := State.ofNames_append hs (name :: back)
  rw [List.nil_append, ofNames_cons_of_ok houtcome] at hwrites hdiagnostics
  intro visit later
  have houtput : run.output = s.done.output ++ (visit.writes.flatten ++ later.output) := by
    rw [output, hwrites, List.flatten_append, List.flatten_append]
    rfl
  have hreport : run.report = s.done.report
      ++ ((complaint.map (Diagnostic.mk program name)).toList.flatMap (fun d => d.message ++ ['\n'])
        ++ later.report) := by
    rw [report, hdiagnostics, List.flatMap_append, List.flatMap_append]
    rfl
  refine ⟨by rw [houtput, List.append_assoc], ?_⟩
  cases complaint with
  | none => exact .inl ⟨houtcome, hreport⟩
  | some complaint =>
    refine .inr ⟨complaint, houtcome, ?_⟩
    rw [hreport, List.append_assoc]
    simp [Diagnostic.message]

theorem ofNames_lenient_comma :
    let x : Extraction := ⟨.fields [','], [⟨0, 1⟩]⟩
    let entry : Text → Entry := fun _ => .unavailable .notFound
    let data := Utf8.encode "a,b\nc\n".toList
    let ends : Ends := ⟨.ofBytes data (some ⟨2, .inputOutput⟩), ⟨some ⟨1, .noSpace⟩⟩⟩
    let names := ["-".toList, "gone".toList, "-".toList]
    let run := ofNames x "cut".toList entry ends names
    (∀ mode, x.mode ≠ .unknown mode)
      ∧ (∀ name ∈ names, '\x00' ∉ name)
      ∧ ends.Lenient
      ∧ run.output = "a\n".toList
      ∧ run.diagnostics
        = [⟨"cut".toList, "-".toList, .noSpace⟩, ⟨"cut".toList, "gone".toList, .unavailable .notFound⟩,
          ⟨"cut".toList, "-".toList, .inputOutput⟩]
      ∧ run.status = 1 := by
  have hrun : ofNames ⟨.fields [','], [⟨0, 1⟩]⟩ "cut".toList (fun _ => .unavailable .notFound)
      ⟨.ofBytes (Utf8.encode "a,b\nc\n".toList) (some ⟨2, .inputOutput⟩), ⟨some ⟨1, .noSpace⟩⟩⟩
      ["-".toList, "gone".toList, "-".toList]
      = ⟨["a\n".toList],
        [⟨"cut".toList, "-".toList, .noSpace⟩, ⟨"cut".toList, "gone".toList, .unavailable .notFound⟩,
          ⟨"cut".toList, "-".toList, .inputOutput⟩],
        none⟩ := by
    decide +kernel
  intro x entry data ends names run
  have hx : ∀ mode, x.mode ≠ .unknown mode := by simp [x]
  have hnames : ∀ name ∈ names, '\x00' ∉ name := by decide
  have hends : ends.Lenient := ⟨by simp [ends, Source.ofBytes, Fault.Only], by simp [ends, Fault.Only]⟩
  obtain ⟨_, _, _, hstatus, _⟩ := ofNames_lenient x "cut".toList entry ends names hx hnames hends
  refine ⟨hx, hnames, hends, congrArg output hrun, congrArg diagnostics hrun, hstatus.mpr ?_⟩
  rw [ne_eq, report_eq_nil, hrun]
  simp

end Run

end Excerpt
