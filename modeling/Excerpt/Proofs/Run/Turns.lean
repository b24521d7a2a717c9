import Mathlib.Data.List.Basic
import Excerpt.Run

/-!
This module contains a run as a sequence of turns: one for each name that the run gets to, with both ends as the turns
before it have left them. A run is made up of what its turns do, and the turn that ends it is the last one; nothing
depends on the names behind it.
-/

namespace Excerpt

structure Turn where
  name : Text
  ends : Ends
  deriving DecidableEq, Repr

inductive Effect
  | write (text : Text)
  | tell (d : Diagnostic)
  deriving DecidableEq, Repr

namespace Visit

def complaint (visit : Visit) : Option Complaint :=
  match visit.outcome with
  | .error _ => none
  | .ok complaint => complaint

def abort (visit : Visit) : Option Abort :=
  match visit.outcome with
  | .error abort => some abort
  | .ok _ => none

end Visit

theorem Extraction.visit_cases (x : Extraction) (entry : Text → Entry) (name : Text) :
    (name = stdinName
        ∧ ∀ ends, x.visit entry ends name
          = ⟨(x.transfer ends.stdin ends.sink).writes, (x.transfer ends.stdin ends.sink).outcome,
              (x.transfer ends.stdin ends.sink).source, (x.transfer ends.stdin ends.sink).sink⟩)
      ∨ (name ≠ stdinName
        ∧ ∃ data, ∀ ends, x.visit entry ends name
          = ⟨(x.transfer (.ofBytes data) ends.sink).writes, (x.transfer (.ofBytes data) ends.sink).outcome,
              ends.stdin, (x.transfer (.ofBytes data) ends.sink).sink⟩)
      ∨ (name ≠ stdinName
        ∧ ∃ outcome, (outcome = .error (.crash .nullInName) ∧ '\x00' ∈ name
              ∨ outcome = .ok (some .isDirectory)
              ∨ ∃ e, outcome = .ok (some (.unavailable e)))
          ∧ ∀ ends, x.visit entry ends name = ⟨[], outcome, ends⟩) := by
  by_cases hdash : name = stdinName
  . refine .inl ⟨hdash, fun ends => ?_⟩
    simp only [visit, if_pos hdash]
  . refine .inr ?_
    by_cases hnull : '\x00' ∈ name
    . refine .inr ⟨hdash, _, .inl ⟨rfl, hnull⟩, fun ends => ?_⟩
      simp only [visit, if_neg hdash, if_pos hnull]
    . cases hentry : entry name with
      | directory =>
        refine .inr ⟨hdash, _, .inr (.inl rfl), fun ends => ?_⟩
        simp only [visit, if_neg hdash, if_neg hnull, hentry]
      | unavailable e =>
        refine .inr ⟨hdash, _, .inr (.inr ⟨e, rfl⟩), fun ends => ?_⟩
        simp only [visit, if_neg hdash, if_neg hnull, hentry]
      | file data =>
        refine .inl ⟨hdash, data, fun ends => ?_⟩
        simp only [visit, if_neg hdash, if_neg hnull, hentry]

namespace Turn

def visit (x : Extraction) (entry : Text → Entry) (turn : Turn) : Visit := x.visit entry turn.ends turn.name

def diagnostics (x : Extraction) (program : Text) (entry : Text → Entry) (turn : Turn) : List Diagnostic :=
  ((turn.visit x entry).complaint.map (Diagnostic.mk program turn.name)).toList

/--
What happens in a turn, in this order: the input is told of after everything that could be extracted is written.
-/
def effects (x : Extraction) (program : Text) (entry : Text → Entry) (turn : Turn) : List Effect :=
  (turn.visit x entry).writes.map .write ++ (turn.diagnostics x program entry).map .tell

end Turn

namespace Run

/--
The turns of a run. If a turn ends the run, the names behind it have none.
-/
def turns (x : Extraction) (entry : Text → Entry) (ends : Ends) : List Text → List Turn
  | [] => []
  | name :: names =>
    let visit := x.visit entry ends name
    match visit.outcome with
    | .error _ => [⟨name, ends⟩]
    | .ok _ => ⟨name, ends⟩ :: turns x entry visit.ends names

def ofTurns (x : Extraction) (program : Text) (entry : Text → Entry) (turns : List Turn) : Run where
  writes := turns.flatMap fun turn => (turn.visit x entry).writes
  diagnostics := turns.flatMap (Turn.diagnostics x program entry)
  abort := turns.findSome? fun turn => (turn.visit x entry).abort

def effects (x : Extraction) (program : Text) (entry : Text → Entry) (ends : Ends) (names : List Text) : List Effect :=
  (turns x entry ends names).flatMap (Turn.effects x program entry)

/--
A run gets to a name and no further. It is the same run whatever names follow that one, and whatever the names lead
to that it does not get to.
-/
def StopsAt (x : Extraction) (program : Text) (entry : Text → Entry) (ends : Ends) (names : List Text)
    (name : Text) : Prop :=
  ∃ front back,
    names = front ++ name :: back
      ∧ (turns x entry ends names).map Turn.name = front ++ [name]
      ∧ ∀ entry' back', (∀ m ∈ front ++ [name], entry' m = entry m) →
          ofNames x program entry' ends (front ++ name :: back') = ofNames x program entry ends names

section

variable {x : Extraction} {program name : Text} {entry entry' : Text → Entry} {ends : Ends}
variable {names front back : List Text} {abort : Abort} {complaint : Option Complaint}

theorem turns_cons_of_ok (h : (x.visit entry ends name).outcome = .ok complaint) :
    turns x entry ends (name :: names) = ⟨name, ends⟩ :: turns x entry (x.visit entry ends name).ends names := by
  simp only [turns, h]

theorem turns_cons_of_error (h : (x.visit entry ends name).outcome = .error abort) :
    turns x entry ends (name :: names) = [⟨name, ends⟩] := by
  simp only [turns, h]

theorem turns_cons (x : Extraction) (entry : Text → Entry) (ends : Ends) (name : Text) (names : List Text) :
    ∃ later, turns x entry ends (name :: names) = ⟨name, ends⟩ :: later := by
  cases h : (x.visit entry ends name).outcome with
  | error abort => exact ⟨[], turns_cons_of_error h⟩
  | ok complaint => exact ⟨_, turns_cons_of_ok h⟩

theorem ofNames_cons_of_ok (h : (x.visit entry ends name).outcome = .ok complaint) :
    ofNames x program entry ends (name :: names)
      = ⟨(x.visit entry ends name).writes ++ (ofNames x program entry (x.visit entry ends name).ends names).writes,
        (complaint.map (Diagnostic.mk program name)).toList
          ++ (ofNames x program entry (x.visit entry ends name).ends names).diagnostics,
        (ofNames x program entry (x.visit entry ends name).ends names).abort⟩ := by
  simp only [ofNames, h]

theorem ofNames_cons_of_error (h : (x.visit entry ends name).outcome = .error abort) :
    ofNames x program entry ends (name :: names)
      = ⟨(x.visit entry ends name).writes, [], some abort⟩ := by
  simp only [ofNames, h]

theorem effects_cons_of_ok (h : (x.visit entry ends name).outcome = .ok complaint) :
    effects x program entry ends (name :: names)
      = (x.visit entry ends name).writes.map .write
        ++ ((complaint.map (Diagnostic.mk program name)).toList.map .tell
          ++ effects x program entry (x.visit entry ends name).ends names) := by
  rw [effects, turns_cons_of_ok h, List.flatMap_cons, ← List.append_assoc]
  simp only [effects, Turn.effects, Turn.visit, Turn.diagnostics, Visit.complaint, h]

theorem effects_cons_of_error (h : (x.visit entry ends name).outcome = .error abort) :
    effects x program entry ends (name :: names) = (x.visit entry ends name).writes.map .write := by
  rw [effects, turns_cons_of_error h]
  simp [Turn.effects, Turn.visit, Turn.diagnostics, Visit.complaint, h]

theorem effects_cons (x : Extraction) (program : Text) (entry : Text → Entry) (ends : Ends) (name : Text)
    (names : List Text) :
    ∃ later, effects x program entry ends (name :: names) = (x.visit entry ends name).writes.map .write ++ later := by
  cases h : (x.visit entry ends name).outcome with
  | error abort => exact ⟨[], by rw [effects_cons_of_error h, List.append_nil]⟩
  | ok complaint => exact ⟨_, effects_cons_of_ok h⟩

theorem ofNames_eq_ofTurns :
    ofNames x program entry ends names = ofTurns x program entry (turns x entry ends names) := by
  induction names generalizing ends with
  | nil => rfl
  | cons name names ih =>
    cases h : (x.visit entry ends name).outcome with
    | error abort =>
      rw [ofNames_cons_of_error h, turns_cons_of_error h]
      simp [ofTurns, Turn.visit, Turn.diagnostics, Visit.complaint, Visit.abort, h]
    | ok complaint =>
      rw [ofNames_cons_of_ok h, turns_cons_of_ok h, ih]
      simp [ofTurns, Turn.visit, Turn.diagnostics, Visit.complaint, Visit.abort, h]

theorem ofTurns_map {f : Turn → Turn} {turns : List Turn}
    (h : ∀ turn ∈ turns,
      (f turn).name = turn.name
        ∧ ((f turn).visit x entry).writes = (turn.visit x entry).writes
        ∧ ((f turn).visit x entry).outcome = (turn.visit x entry).outcome) :
    ofTurns x program entry (turns.map f) = ofTurns x program entry turns := by
  induction turns with
  | nil => rfl
  | cons turn turns ih =>
    obtain ⟨hname, hwrites, houtcome⟩ := h turn (.head _)
    have hrest := ih fun turn hturn => h turn (.tail _ hturn)
    simp only [ofTurns, Run.mk.injEq] at hrest
    have hdiagnostics : (f turn).diagnostics x program entry = turn.diagnostics x program entry := by
      simp only [Turn.diagnostics, Visit.complaint, hname, houtcome]
    have habort : ((f turn).visit x entry).abort = (turn.visit x entry).abort := by
      simp only [Visit.abort, houtcome]
    simp only [ofTurns, List.map_cons, List.flatMap_cons, List.findSome?_cons, hwrites, hdiagnostics, habort, hrest]

theorem length_turns_le : (turns x entry ends names).length ≤ names.length := by
  induction names generalizing ends with
  | nil => exact Nat.le_refl _
  | cons name names ih =>
    cases h : (x.visit entry ends name).outcome with
    | error abort => simp [turns_cons_of_error h]
    | ok complaint => simp [turns_cons_of_ok h, ih]

theorem name_mem_of_turn {turn : Turn} (h : turn ∈ turns x entry ends names) : turn.name ∈ names := by
  induction names generalizing ends with
  | nil => cases h
  | cons name names ih =>
    cases houtcome : (x.visit entry ends name).outcome with
    | error abort =>
      rw [turns_cons_of_error houtcome, List.mem_singleton] at h
      subst h
      exact .head _
    | ok complaint =>
      rw [turns_cons_of_ok houtcome] at h
      cases h with
      | head => exact .head _
      | tail _ h => exact .tail _ (ih h)

theorem mem_diagnostics_of_turn {turn : Turn} {complaint : Complaint} (program : Text)
    (hturn : turn ∈ turns x entry ends names) (h : (turn.visit x entry).outcome = .ok (some complaint)) :
    ⟨program, turn.name, complaint⟩ ∈ (ofNames x program entry ends names).diagnostics := by
  rw [ofNames_eq_ofTurns]
  refine List.mem_flatMap.mpr ⟨turn, hturn, ?_⟩
  simp [Turn.diagnostics, Visit.complaint, h]

theorem abort_of_turn {turn : Turn} (hturn : turn ∈ turns x entry ends names)
    (h : (turn.visit x entry).outcome = .error abort) :
    (ofNames x program entry ends names).abort = some abort := by
  induction names generalizing ends with
  | nil => cases hturn
  | cons name names ih =>
    cases houtcome : (x.visit entry ends name).outcome with
    | error abort' =>
      rw [turns_cons_of_error houtcome, List.mem_singleton] at hturn
      subst hturn
      exact (congrArg Run.abort (ofNames_cons_of_error h)).trans rfl
    | ok complaint =>
      rw [turns_cons_of_ok houtcome] at hturn
      rw [ofNames_cons_of_ok houtcome]
      cases hturn with
      | head =>
        rw [Turn.visit, houtcome] at h
        cases h
      | tail _ hturn => exact ih hturn

theorem map_name_turns (h : (ofNames x program entry ends names).abort = none) :
    (turns x entry ends names).map Turn.name = names := by
  induction names generalizing ends with
  | nil => rfl
  | cons name names ih =>
    cases houtcome : (x.visit entry ends name).outcome with
    | error abort =>
      rw [ofNames_cons_of_error houtcome] at h
      cases h
    | ok complaint =>
      rw [ofNames_cons_of_ok houtcome] at h
      rw [turns_cons_of_ok houtcome, List.map_cons, ih h]

theorem visit_congr_entry (h : entry' name = entry name) : x.visit entry' ends name = x.visit entry ends name := by
  simp only [Extraction.visit, h]

theorem stopsAt_of_abort (h : (ofNames x program entry ends names).abort = some abort) :
    ∃ turn ∈ turns x entry ends names,
      (turn.visit x entry).outcome = .error abort ∧ StopsAt x program entry ends names turn.name := by
  induction names generalizing ends with
  | nil => cases h
  | cons name names ih =>
    cases houtcome : (x.visit entry ends name).outcome with
    | error abort' =>
      rw [ofNames_cons_of_error houtcome, Option.some.injEq] at h
      subst h
      refine ⟨⟨name, ends⟩, by simp [turns_cons_of_error houtcome], houtcome, [], names, rfl,
        by simp [turns_cons_of_error houtcome], ?_⟩
      intro entry' back' hentry
      have hvisit : x.visit entry' ends name = x.visit entry ends name := visit_congr_entry (hentry name (by simp))
      rw [List.nil_append, ofNames_cons_of_error houtcome, ← hvisit]
      rw [← hvisit] at houtcome
      exact ofNames_cons_of_error houtcome
    | ok complaint =>
      rw [ofNames_cons_of_ok houtcome] at h
      obtain ⟨turn, hturn, hlast, front, back, rfl, hnames, hrest⟩ := ih h
      rw [turns_cons_of_ok houtcome]
      refine ⟨turn, .tail _ hturn, hlast, name :: front, back, rfl, ?_, ?_⟩
      . rw [turns_cons_of_ok houtcome, List.map_cons, hnames, List.cons_append]
      . intro entry' back' hentry
        have hvisit : x.visit entry' ends name = x.visit entry ends name := visit_congr_entry (hentry name (by simp))
        have hmore := hrest entry' back' fun m hm => hentry m (List.mem_cons_of_mem _ hm)
        rw [List.cons_append, ofNames_cons_of_ok houtcome, ← hmore, ← hvisit]
        rw [← hvisit] at houtcome
        exact ofNames_cons_of_ok houtcome

end

end Run

end Excerpt
