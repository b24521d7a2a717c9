import Mathlib.Data.List.Iterate
import Excerpt.Proofs.Stream.Faultless
import Excerpt.Run

/-!
This module contains how a run without faults is made up of the runs over its names one by one. Names share nothing
but standard input, and of that each name for it leaves the next one what it has not read.
-/

namespace Excerpt

namespace Extraction

variable {x : Extraction} {stdin : Source} {name : Text} {names : List Text} {entry : Text → Entry}

def unread (x : Extraction) (stdin : Source) : Source := (x.transfer stdin {}).source

theorem outcome_faultless (hstdin : stdin.fault = none) :
    (x.transfer stdin {}).outcome = .ok none
      ∨ (∃ e, (x.transfer stdin {}).outcome = .ok (some (.malformed e)))
      ∨ ∃ mode, x.mode = .unknown mode ∧ (x.transfer stdin {}).outcome = .error (.crash (.unknownMode mode)) := by
  rw [transfer, hstdin]
  rcases takes_or_stops x {} stdin.lines with ⟨writes, last, htakes⟩
    | ⟨front, line, back, writes, last, stop, hlines, htakes, hstop⟩
  . rw [htakes.go_eq]
    cases last.close with
    | none => exact .inl rfl
    | some e => exact .inr (.inl ⟨e, rfl⟩)
  . rw [hlines, htakes.go_stop hstop]
    rcases feed_eq_error hstop with ⟨delimiter, e, _, rfl⟩ | ⟨mode, hmode, rfl⟩
    . exact .inr (.inl ⟨e, rfl⟩)
    . exact .inr (.inr ⟨mode, hmode, rfl⟩)

theorem transfer_faultless (hx : ∀ mode, x.mode ≠ .unknown mode) (hstdin : stdin.fault = none) :
    (∃ complaint, (x.transfer stdin {}).outcome = .ok complaint)
      ∧ (x.transfer stdin {}).source.fault = none
      ∧ (x.transfer stdin {}).sink = {} := by
  refine ⟨?_, transfer_ends hstdin⟩
  rcases outcome_faultless hstdin with hclean | ⟨e, hmalformed⟩ | ⟨mode, hmode, _⟩
  . exact ⟨none, hclean⟩
  . exact ⟨some (.malformed e), hmalformed⟩
  . exact absurd hmode (hx mode)

theorem fault_unread (name : Text) (hstdin : stdin.fault = none) :
    (if name = stdinName then x.unread stdin else stdin).fault = none := by
  split
  . exact (transfer_ends hstdin).1
  . exact hstdin

theorem ends_visit (entry : Text → Entry) (name : Text) (hstdin : stdin.fault = none) :
    (x.visit entry ⟨stdin, {}⟩ name).ends = ⟨if name = stdinName then x.unread stdin else stdin, {}⟩ := by
  by_cases hdash : name = stdinName
  . simp only [visit, if_pos hdash, unread, (transfer_ends hstdin).2]
  . by_cases hnull : '\x00' ∈ name
    . simp only [visit, if_neg hdash, if_pos hnull]
    . simp only [visit, if_neg hdash, if_neg hnull]
      cases entry name with
      | directory => rfl
      | unavailable e => rfl
      | file data =>
        have hfile : (Source.ofBytes data).fault = none := rfl
        simp only [(transfer_ends hfile).2]

theorem visit_faultless (entry : Text → Entry) (hx : ∀ mode, x.mode ≠ .unknown mode) (hstdin : stdin.fault = none)
    (hname : '\x00' ∉ name) :
    (∃ complaint, (x.visit entry ⟨stdin, {}⟩ name).outcome = .ok complaint)
      ∧ (x.visit entry ⟨stdin, {}⟩ name).ends = ⟨if name = stdinName then x.unread stdin else stdin, {}⟩ := by
  refine ⟨?_, ends_visit entry name hstdin⟩
  by_cases hdash : name = stdinName
  . simp only [visit, if_pos hdash]
    exact (transfer_faultless hx hstdin).1
  . simp only [visit, if_neg hdash, if_neg hname]
    cases entry name with
    | directory => exact ⟨some .isDirectory, rfl⟩
    | unavailable e => exact ⟨some (.unavailable e), rfl⟩
    | file data =>
      have hfile : (Source.ofBytes data).fault = none := rfl
      exact (transfer_faultless hx hfile).1

theorem unread_iterate_count_cons :
    x.unread^[(name :: names).count stdinName] stdin
      = x.unread^[names.count stdinName] (if name = stdinName then x.unread stdin else stdin) := by
  by_cases hname : name = stdinName
  . rw [hname, List.count_cons_self, Function.iterate_succ_apply, if_pos rfl]
  . rw [List.count_cons_of_ne hname, if_neg hname]

theorem visit_congr (x : Extraction) (stdin stdin' : Source) {entry' : Text → Entry} (hname : name ≠ stdinName)
    (hentry : entry' name = entry name) :
    (x.visit entry' ⟨stdin', {}⟩ name).writes = (x.visit entry ⟨stdin, {}⟩ name).writes
      ∧ (x.visit entry' ⟨stdin', {}⟩ name).outcome = (x.visit entry ⟨stdin, {}⟩ name).outcome := by
  simp only [visit, if_neg hname, hentry]
  split
  . exact ⟨rfl, rfl⟩
  . cases entry name with
    | directory => exact ⟨rfl, rfl⟩
    | unavailable e => exact ⟨rfl, rfl⟩
    | file data => exact ⟨rfl, rfl⟩

end Extraction

namespace Run

variable {x : Extraction} {program name : Text} {entry : Text → Entry} {ends : Ends} {names : List Text}
variable {stdin : Source} {complaint : Option Complaint}

theorem ofNames_cons (h : (x.visit entry ends name).outcome = .ok complaint) :
    ofNames x program entry ends (name :: names)
      = let first := ofNames x program entry ends [name]
        let rest := ofNames x program entry (x.visit entry ends name).ends names
        { rest with writes := first.writes ++ rest.writes, diagnostics := first.diagnostics ++ rest.diagnostics } := by
  simp only [ofNames, h, List.append_nil]

theorem ofNames_faultless (hx : ∀ mode, x.mode ≠ .unknown mode) (hstdin : stdin.fault = none)
    (hnames : ∀ name ∈ names, '\x00' ∉ name) :
    let parts := names.mapIdx fun k name =>
      ofNames x program entry ⟨x.unread^[(names.take k).count stdinName] stdin, {}⟩ [name]
    ofNames x program entry ⟨stdin, {}⟩ names = ⟨parts.flatMap writes, parts.flatMap diagnostics, none⟩ := by
  -- The standard input is generalized, since the first name may take some of it from the others.
  induction names generalizing stdin with
  | nil => rfl
  | cons name names ih =>
    obtain ⟨⟨complaint, houtcome⟩, hends⟩ :=
      Extraction.visit_faultless entry hx hstdin (hnames name (.head _))
    have hnext := Extraction.fault_unread (x := x) name hstdin
    rw [ofNames_cons houtcome, hends, ih hnext fun name hname => hnames name (.tail _ hname)]
    simp only [List.mapIdx_cons, List.take_succ_cons, Extraction.unread_iterate_count_cons, List.flatMap_cons]
    rfl

theorem report_eq_nil {run : Run} : run.report = [] ↔ run.diagnostics = [] := by
  cases hdiagnostics : run.diagnostics with
  | nil => simp [report, hdiagnostics]
  | cons d diagnostics => simp [report, hdiagnostics]

theorem ofNames_singleton_congr {entry' : Text → Entry} {stdin' : Source} (hname : name ≠ stdinName)
    (hentry : entry' name = entry name) :
    ofNames x program entry' ⟨stdin', {}⟩ [name] = ofNames x program entry ⟨stdin, {}⟩ [name] := by
  obtain ⟨hwrites, houtcome⟩ := x.visit_congr stdin stdin' hname hentry
  simp only [ofNames, hwrites, houtcome]

theorem ofNames_eq_parts (x : Extraction) (program : Text) (entry : Text → Entry) (data : Bytes) (names : List Text)
    (hx : ∀ mode, x.mode ≠ .unknown mode) (hnames : ∀ name ∈ names, '\x00' ∉ name) :
    let run := ofNames x program entry ⟨.ofBytes data, {}⟩ names
    let parts := names.mapIdx fun k name =>
      ofNames x program entry ⟨x.unread^[(names.take k).count stdinName] (.ofBytes data), {}⟩ [name]
    run.abort = none
      ∧ run.output = parts.flatMap output
      ∧ run.report = parts.flatMap report
      ∧ run.status = (if ∃ part ∈ parts, part.report ≠ [] then 1 else 0)
      ∧ ∀ entry' stdin stdin' name, name ≠ stdinName → entry' name = entry name →
          ofNames x program entry' ⟨stdin', {}⟩ [name] = ofNames x program entry ⟨stdin, {}⟩ [name] := by
  intro run parts
  have hrun : run = ⟨parts.flatMap writes, parts.flatMap diagnostics, none⟩ := ofNames_faultless hx rfl hnames
  rw [hrun]
  refine ⟨rfl, ?_, List.flatMap_assoc, ?_, ?_⟩
  . show (parts.flatMap writes).flatten = parts.flatMap fun part => part.writes.flatten
    simp only [List.flatten_eq_flatMap, List.flatMap_assoc]
  . simp only [status, List.flatMap_eq_nil_iff, ne_eq, report_eq_nil]
    by_cases hquiet : ∀ part ∈ parts, part.diagnostics = []
    . rw [if_pos hquiet, if_neg]
      rintro ⟨part, hpart, hne⟩
      exact hne (hquiet part hpart)
    . rw [if_neg hquiet, if_pos]
      simpa using hquiet
  . intro entry' stdin stdin' name hname hentry
    exact ofNames_singleton_congr hname hentry

theorem ofNames_eq_parts_comma :
    (∀ mode, Mode.fields [','] ≠ .unknown mode)
      ∧ (∀ name ∈ ["-".toList, "gone".toList, "-".toList], '\x00' ∉ name)
      ∧ (ofNames ⟨.fields [','], [⟨0, 1⟩]⟩ "cut".toList (fun _ => .unavailable .notFound)
            ⟨.ofBytes (Utf8.encode "a,b\n\"c\"d\ne,f\n".toList), {}⟩
            ["-".toList, "gone".toList, "-".toList]).output
          = "a\ne\n".toList := by
  have hx : ∀ mode, Mode.fields [','] ≠ .unknown mode := by simp
  have hnames : ∀ name ∈ ["-".toList, "gone".toList, "-".toList], '\x00' ∉ name := by decide
  refine ⟨hx, hnames, ?_⟩
  rw [(ofNames_eq_parts ⟨.fields [','], [⟨0, 1⟩]⟩ _ _ _ _ hx hnames).2.1]
  decide +kernel

end Run

end Excerpt
