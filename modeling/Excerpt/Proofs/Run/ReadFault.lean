import Mathlib.Data.List.Infix
import Excerpt.Proofs.Run.Parts
import Excerpt.Proofs.Run.Turns
import Excerpt.Proofs.Stream.ReadFault

/-!
This module contains runs whose standard input fails after some more reads. To the output that is the end of standard
input. A name that hits the fault is told of, if it is an error, and the run goes on; an interrupt ends the run.
-/

namespace Excerpt

def Line.front (n : Nat) (data : Bytes) : Bytes := ((Line.split data).take n).flatten

theorem Line.split_front {n : Nat} {data : Bytes} : Line.split (Line.front n data) = (Line.split data).take n := by
  obtain ⟨read, rest, _, hread, _⟩ := Line.exists_of_split_eq_append (List.take_append_drop n (Line.split data)).symm
  rw [Line.front, ← hread, Line.flatten_split]

def Turn.cut (turn : Turn) : Turn := ⟨turn.name, ⟨turn.ends.stdin.cut, turn.ends.sink⟩⟩

def Turn.HitsReadFault (x : Extraction) (turn : Turn) : Prop :=
  turn.name = stdinName
    ∧ ∃ fault, turn.ends.stdin.fault = some fault ∧ fault.after < x.reads {} turn.ends.stdin.lines

def Reader.complaint (reader : Reader) : Option Complaint := reader.close.map .malformed

def Ends.failing (lines : List Bytes) (n : Nat) (kind : ReadFault) : Ends := ⟨⟨lines, some ⟨n, kind⟩⟩, {}⟩

namespace Extraction

variable {x : Extraction} {name : Text} {entry : Text → Entry} {lines : List Bytes} {n : Nat} {kind : ReadFault}

/--
A visit in the run that fails, and the same visit in the run whose standard input ends instead. They write the same and
leave the same to the visits behind them; they differ only in what comes of the fault.
-/
theorem visit_failing (x : Extraction) (entry : Text → Entry) (name : Text) (lines : List Bytes) (n : Nat)
    (kind : ReadFault) :
    ∃ writes outcome outcome' rest left,
      x.visit entry (.failing lines n kind) name = ⟨writes, outcome, .failing rest left kind⟩
        ∧ x.visit entry ⟨⟨lines.take n, none⟩, {}⟩ name = ⟨writes, outcome', ⟨⟨rest.take left, none⟩, {}⟩⟩
        ∧ (Turn.HitsReadFault x ⟨name, .failing lines n kind⟩ →
            outcome = (Stop.readFailed kind).judge.map some ∧ ∃ last, outcome' = .ok (Reader.complaint last))
        ∧ (¬ Turn.HitsReadFault x ⟨name, .failing lines n kind⟩ → outcome = outcome') := by
  rcases x.visit_cases entry name with ⟨hdash, hvisit⟩ | ⟨hne, data, hvisit⟩ | ⟨hne, outcome, _, hvisit⟩
  . have hhits : Turn.HitsReadFault x ⟨name, .failing lines n kind⟩ ↔ n < x.reads {} lines := by
      constructor
      . rintro ⟨_, fault, hfault, hreads⟩
        cases hfault
        exact hreads
      . intro hreads
        exact ⟨hdash, ⟨n, kind⟩, rfl, hreads⟩
    simp only [hvisit, transfer, Ends.failing] at hhits ⊢
    by_cases hreads : n < x.reads {} lines
    . obtain ⟨writes, rest, last, hgo, hcut⟩ := go_of_lt_reads kind hreads
      rw [hgo, hcut]
      refine ⟨writes, _, _, rest, 0, rfl, rfl, fun _ => ⟨rfl, last, ?_⟩, ?_⟩
      . simp only [Transfer.outcome, Reader.complaint]
        cases last.close with
        | none => rfl
        | some e => rfl
      . exact fun hmisses => absurd (hhits.mpr hreads) hmisses
    . obtain ⟨writes, stop, rest, left, hgo, hcut⟩ := go_of_reads_le kind (Nat.le_of_not_lt hreads)
      rw [hgo, hcut]
      exact ⟨writes, _, _, rest, left, rfl, rfl, fun h => absurd (hhits.mp h) hreads, fun _ => rfl⟩
  . have hfile : (Source.ofBytes data).fault = none := rfl
    simp only [hvisit, (transfer_ends (x := x) hfile).2, Ends.failing]
    exact ⟨_, _, _, lines, n, rfl, rfl, fun h => absurd h.1 hne, fun _ => rfl⟩
  . exact ⟨[], outcome, outcome, lines, n, hvisit _, hvisit _, fun h => absurd h.1 hne, fun _ => rfl⟩

end Extraction

namespace Run

variable {x : Extraction} {program name : Text} {entry : Text → Entry} {names : List Text} {lines : List Bytes}
variable {n : Nat} {kind : ReadFault}

theorem ends_of_turn {turn : Turn} (h : turn ∈ turns x entry (.failing lines n kind) names) :
    ∃ rest left, turn.ends = .failing rest left kind := by
  induction names generalizing lines n with
  | nil => cases h
  | cons name names ih =>
    obtain ⟨writes, outcome, _, rest, left, hvisit, _⟩ := x.visit_failing entry name lines n kind
    cases houtcome : (x.visit entry (.failing lines n kind) name).outcome with
    | error abort =>
      rw [turns_cons_of_error houtcome, List.mem_singleton] at h
      exact ⟨lines, n, by rw [h]⟩
    | ok complaint =>
      rw [turns_cons_of_ok houtcome, hvisit] at h
      cases h with
      | head => exact ⟨lines, n, rfl⟩
      | tail _ h => exact ih h

theorem isPrefix_map_cut_turns (x : Extraction) (entry : Text → Entry) (lines : List Bytes) (n : Nat) (kind : ReadFault)
    (names : List Text) :
    (turns x entry (.failing lines n kind) names).map Turn.cut
      <+: turns x entry ⟨⟨lines.take n, none⟩, {}⟩ names := by
  induction names generalizing lines n with
  | nil => exact List.nil_prefix
  | cons name names ih =>
    obtain ⟨writes, outcome, outcome', rest, left, hvisit, hcut, hhits, hmisses⟩ :=
      x.visit_failing entry name lines n kind
    cases houtcome : (x.visit entry (.failing lines n kind) name).outcome with
    | error abort =>
      obtain ⟨later, hlater⟩ := turns_cons x entry ⟨⟨lines.take n, none⟩, {}⟩ name names
      rw [turns_cons_of_error houtcome, hlater]
      exact ⟨later, rfl⟩
    | ok complaint =>
      obtain ⟨complaint', hok⟩ : ∃ complaint', outcome' = .ok complaint' := by
        by_cases h : Turn.HitsReadFault x ⟨name, .failing lines n kind⟩
        . obtain ⟨_, last, hlast⟩ := hhits h
          exact ⟨_, hlast⟩
        . exact ⟨complaint, by rw [← hmisses h, ← houtcome, hvisit]⟩
      rw [turns_cons_of_ok houtcome, turns_cons_of_ok (by rw [hcut]; exact hok), hvisit, hcut, List.map_cons]
      exact List.cons_prefix_cons.mpr ⟨rfl, ih rest left⟩

theorem visit_cut_of_turn {turn : Turn} (h : turn ∈ turns x entry (.failing lines n kind) names) :
    (turn.cut.visit x entry).writes = (turn.visit x entry).writes
      ∧ (turn.HitsReadFault x →
          (turn.visit x entry).outcome = (Stop.readFailed kind).judge.map some
            ∧ ∃ last, (turn.cut.visit x entry).outcome = .ok (Reader.complaint last))
      ∧ (¬ turn.HitsReadFault x → (turn.visit x entry).outcome = (turn.cut.visit x entry).outcome) := by
  obtain ⟨name, ends⟩ := turn
  obtain ⟨rest, left, rfl⟩ := ends_of_turn h
  obtain ⟨writes, outcome, outcome', _, _, hvisit, hcut, hhits, hmisses⟩ := x.visit_failing entry name rest left kind
  have hturn : Turn.visit x entry ⟨name, .failing rest left kind⟩ = _ := hvisit
  have hturncut : Turn.visit x entry (Turn.cut ⟨name, .failing rest left kind⟩) = _ := hcut
  rw [hturn, hturncut]
  exact ⟨rfl, hhits, hmisses⟩

theorem flatMap_writes_cut :
    ((turns x entry (.failing lines n kind) names).map Turn.cut).flatMap (fun turn => (turn.visit x entry).writes)
      = (ofNames x program entry (.failing lines n kind) names).writes := by
  rw [ofNames_eq_ofTurns, List.flatMap_map]
  exact List.flatMap_congr fun turn hturn => (visit_cut_of_turn hturn).1

theorem isPrefix_writes_failing :
    (ofNames x program entry (.failing lines n kind) names).writes
      <+: (ofNames x program entry ⟨⟨lines.take n, none⟩, {}⟩ names).writes := by
  have hwhole : ofNames x program entry ⟨⟨lines.take n, none⟩, {}⟩ names = ofTurns x program entry _ :=
    ofNames_eq_ofTurns
  obtain ⟨later, hlater⟩ := isPrefix_map_cut_turns x entry lines n kind names
  rw [← flatMap_writes_cut, hwhole, ofTurns, ← hlater, List.flatMap_append]
  exact List.prefix_append _ _

theorem map_cut_turns (h : (ofNames x program entry (.failing lines n kind) names).abort = none) :
    (turns x entry (.failing lines n kind) names).map Turn.cut = turns x entry ⟨⟨lines.take n, none⟩, {}⟩ names := by
  have hlength := congrArg List.length (map_name_turns h)
  rw [List.length_map] at hlength
  apply (isPrefix_map_cut_turns x entry lines n kind names).eq_of_length_le
  rw [List.length_map, hlength]
  exact length_turns_le

theorem hits_of_error {turn : Turn} {abort : Abort} (hx : ∀ mode, x.mode ≠ .unknown mode)
    (hnames : ∀ name ∈ names, '\x00' ∉ name) (hturn : turn ∈ turns x entry (.failing lines n kind) names)
    (h : (turn.visit x entry).outcome = .error abort) : turn.HitsReadFault x := by
  apply Classical.byContradiction
  intro hmisses
  have hstdin : turn.ends.stdin.cut.fault = none := by
    obtain ⟨rest, left, hends⟩ := ends_of_turn hturn
    rw [hends]
    rfl
  have hsink : turn.ends.sink = {} := by
    obtain ⟨rest, left, hends⟩ := ends_of_turn hturn
    rw [hends]
    rfl
  obtain ⟨⟨complaint, hcut⟩, _⟩ :=
    Extraction.visit_faultless entry hx hstdin (hnames turn.name (name_mem_of_turn hturn))
  rw [(visit_cut_of_turn hturn).2.2 hmisses, Turn.cut, Turn.visit, hsink, hcut] at h
  cases h

theorem ofNames_eq_of_misses (hx : ∀ mode, x.mode ≠ .unknown mode) (hnames : ∀ name ∈ names, '\x00' ∉ name)
    (h : ∀ turn ∈ turns x entry (.failing lines n kind) names, ¬ turn.HitsReadFault x) :
    ofNames x program entry (.failing lines n kind) names
      = ofNames x program entry ⟨⟨lines.take n, none⟩, {}⟩ names := by
  have habort : (ofNames x program entry (.failing lines n kind) names).abort = none := by
    cases habort : (ofNames x program entry (.failing lines n kind) names).abort with
    | none => rfl
    | some abort =>
      obtain ⟨turn, hturn, houtcome, _⟩ := stopsAt_of_abort habort
      exact absurd (hits_of_error hx hnames hturn houtcome) (h turn hturn)
  rw [ofNames_eq_ofTurns, ofNames_eq_ofTurns, ← map_cut_turns habort]
  refine (ofTurns_map fun turn hturn => ?_).symm
  obtain ⟨hwrites, _, hmisses⟩ := visit_cut_of_turn hturn
  exact ⟨rfl, hwrites, (hmisses (h turn hturn)).symm⟩

theorem ofNames_failing (x : Extraction) (program : Text) (entry : Text → Entry) (data : Bytes) (names : List Text)
    (n : Nat) (hx : ∀ mode, x.mode ≠ .unknown mode) (hnames : ∀ name ∈ names, '\x00' ∉ name) :
    let failing := fun kind => (⟨.ofBytes data (some ⟨n, kind⟩), {}⟩ : Ends)
    let whole := ofNames x program entry ⟨.ofBytes (Line.front n data), {}⟩ names
    let failed := ofNames x program entry (failing .inputOutput) names
    let broken := ofNames x program entry (failing .interrupt) names
    let turns := fun kind => turns x entry (failing kind) names
    failed = ofTurns x program entry (turns .inputOutput)
      ∧ whole = ofTurns x program entry ((turns .inputOutput).map Turn.cut)
      ∧ (turns .inputOutput).map Turn.name = names
      ∧ failed.abort = none
      ∧ failed.output = whole.output
      ∧ (∀ turn ∈ turns .inputOutput, turn.name ≠ stdinName ∨ ¬ turn.HitsReadFault x →
          (turn.visit x entry).outcome = (turn.cut.visit x entry).outcome)
      ∧ (∀ turn ∈ turns .inputOutput, turn.HitsReadFault x →
          (turn.visit x entry).outcome = .ok (some .inputOutput)
            ∧ ((turn.cut.visit x entry).outcome = .ok none
              ∨ ∃ line, (turn.cut.visit x entry).outcome = .ok (some (.malformed ⟨line, .unterminatedQuote⟩))))
      ∧ ((∃ turn ∈ turns .inputOutput, turn.HitsReadFault x) → failed.status = 1)
      ∧ Diagnostic.message ⟨program, stdinName, .inputOutput⟩
        = program ++ ": ".toList ++ ['-'] ++ ": ".toList ++ "Input/output error".toList
      ∧ broken.output <+: whole.output
      ∧ ((∃ turn ∈ turns .interrupt, turn.HitsReadFault x) →
          broken.abort = some .interrupted ∧ StopsAt x program entry (failing .interrupt) names stdinName)
      ∧ ((∀ turn ∈ turns .interrupt, ¬ turn.HitsReadFault x) → broken = whole) := by
  intro failing whole failed broken turns
  have hwhole : whole = ofNames x program entry ⟨⟨(Line.split data).take n, none⟩, {}⟩ names := by
    rw [← Line.split_front]
    rfl
  have habort : failed.abort = none := by
    cases habort : failed.abort with
    | none => rfl
    | some abort =>
      obtain ⟨turn, hturn, houtcome, _⟩ := stopsAt_of_abort habort
      -- The fault is an error, which does not end the run.
      have hhits := hits_of_error hx hnames hturn houtcome
      rw [((visit_cut_of_turn hturn).2.1 hhits).1] at houtcome
      cases houtcome
  have hturns : (turns .inputOutput).map Turn.cut = Run.turns x entry ⟨⟨(Line.split data).take n, none⟩, {}⟩ names :=
    map_cut_turns habort
  have hcut : whole = ofTurns x program entry ((turns .inputOutput).map Turn.cut) := by
    rw [hwhole, hturns, ofNames_eq_ofTurns]
  refine ⟨ofNames_eq_ofTurns, hcut, map_name_turns habort, habort, ?_, ?_, ?_, ?_, ?_, ?_, ?_, ?_⟩
  . have hwrites : failed.writes = whole.writes := by
      rw [hcut]
      exact flatMap_writes_cut.symm
    rw [output, output, hwrites]
  . intro turn hturn hmisses
    apply (visit_cut_of_turn hturn).2.2
    rintro ⟨hname, hreads⟩
    exact hmisses.elim (· hname) (· ⟨hname, hreads⟩)
  . intro turn hturn hhits
    obtain ⟨houtcome, last, hlast⟩ := (visit_cut_of_turn hturn).2.1 hhits
    refine ⟨houtcome, ?_⟩
    rw [hlast, Reader.complaint, Reader.close]
    cases last.held with
    | none => exact .inl rfl
    | some held => exact .inr ⟨held.1, rfl⟩
  . rintro ⟨turn, hturn, hhits⟩
    have houtcome := ((visit_cut_of_turn hturn).2.1 hhits).1
    exact if_neg (List.ne_nil_of_mem (mem_diagnostics_of_turn program hturn houtcome))
  . rfl
  . rw [hwhole]
    exact isPrefix_writes_failing.flatten
  . rintro ⟨turn, hturn, hhits⟩
    have hbroken : broken.abort = some .interrupted :=
      abort_of_turn hturn ((visit_cut_of_turn hturn).2.1 hhits).1
    obtain ⟨last, hlast, houtcome, hstop⟩ := stopsAt_of_abort hbroken
    rw [(hits_of_error hx hnames hlast houtcome).1] at hstop
    exact ⟨hbroken, hstop⟩
  . intro hmisses
    rw [hwhole]
    exact ofNames_eq_of_misses hx hnames hmisses

theorem ofNames_failing_comma :
    let x : Extraction := ⟨.fields [','], [⟨0, 1⟩]⟩
    let entry : Text → Entry := fun _ => .unavailable .notFound
    let data := Utf8.encode "a,b\n\"c\nd\"\ne,f\n".toList
    let names := [stdinName, "gone".toList, stdinName]
    let failing : Ends := ⟨.ofBytes data (some ⟨2, .inputOutput⟩), {}⟩
    (∀ mode, x.mode ≠ .unknown mode)
      ∧ (∀ name ∈ names, '\x00' ∉ name)
      ∧ ⟨stdinName, failing⟩ ∈ turns x entry failing names
      ∧ Turn.HitsReadFault x ⟨stdinName, failing⟩
      ∧ (Turn.visit x entry ⟨stdinName, failing⟩).outcome = .ok (some .inputOutput)
      ∧ (ofNames x "cut".toList entry failing names).output = "a\n".toList := by
  have hreads : Extraction.reads ⟨.fields [','], [⟨0, 1⟩]⟩ {}
      (Line.split (Utf8.encode "a,b\n\"c\nd\"\ne,f\n".toList)) = 5 := by
    decide +kernel
  have hwhole : (ofNames ⟨.fields [','], [⟨0, 1⟩]⟩ "cut".toList (fun _ => .unavailable .notFound)
      ⟨.ofBytes (Line.front 2 (Utf8.encode "a,b\n\"c\nd\"\ne,f\n".toList)), {}⟩
      [stdinName, "gone".toList, stdinName]).output = "a\n".toList := by
    decide +kernel
  intro x entry data names failing
  have hx : ∀ mode, x.mode ≠ .unknown mode := by simp [x]
  have hnames : ∀ name ∈ names, '\x00' ∉ name := by decide
  have hturn : ⟨stdinName, failing⟩ ∈ turns x entry failing names := by
    obtain ⟨later, hlater⟩ := turns_cons x entry failing stdinName ["gone".toList, stdinName]
    rw [hlater]
    exact .head _
  have hhits : Turn.HitsReadFault x ⟨stdinName, failing⟩ := by
    refine ⟨rfl, ⟨2, .inputOutput⟩, rfl, ?_⟩
    rw [show x.reads {} failing.stdin.lines = 5 from hreads]
    decide
  obtain ⟨_, _, _, _, houtput, _, hfault, _⟩ := ofNames_failing x "cut".toList entry data names 2 hx hnames
  exact ⟨hx, hnames, hturn, hhits, (hfault _ hturn hhits).1, houtput.trans hwhole⟩

end Run

end Excerpt
