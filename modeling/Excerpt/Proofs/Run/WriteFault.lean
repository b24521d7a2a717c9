import Excerpt.Proofs.Run.Parts
import Excerpt.Proofs.Run.Turns
import Excerpt.Proofs.Stream.WriteFault

/-!
This module contains runs that write to a sink with room for some more writes only. What such a run writes are the
first writes of the run without the fault. A closed pipe ends the run right there; without space the run goes on, and
each name that still has something to write is told of.
-/

namespace Excerpt

namespace Effect

/--
The effects in front of the write that follows `room` others.
-/
def beforeWrite : Nat → List Effect → List Effect
  | _, [] => []
  | room, .tell d :: effects => .tell d :: beforeWrite room effects
  | 0, .write _ :: _ => []
  | room + 1, .write text :: effects => .write text :: beforeWrite room effects

def diagnostic? : Effect → Option Diagnostic
  | .write _ => none
  | .tell d => some d

def told (effects : List Effect) : List Diagnostic := effects.filterMap diagnostic?

variable {room : Nat} {texts : List Text} {effects : List Effect} {diagnostics : List Diagnostic}

theorem beforeWrite_tells_append :
    beforeWrite room (diagnostics.map .tell ++ effects) = diagnostics.map .tell ++ beforeWrite room effects := by
  induction diagnostics with
  | nil => rfl
  | cons d diagnostics ih => rw [List.map_cons, List.cons_append, beforeWrite, ih, List.cons_append]

theorem beforeWrite_writes_append_of_le (h : texts.length ≤ room) :
    beforeWrite room (texts.map .write ++ effects)
      = texts.map .write ++ beforeWrite (room - texts.length) effects := by
  induction texts generalizing room with
  | nil => rfl
  | cons text texts ih =>
    cases room with
    | zero => simp at h
    | succ room =>
      rw [List.map_cons, List.cons_append, beforeWrite, ih (by simpa using h), List.length_cons,
        Nat.add_sub_add_right, List.cons_append]

theorem beforeWrite_writes_append_of_lt (h : room < texts.length) :
    beforeWrite room (texts.map .write ++ effects) = (texts.take room).map .write := by
  induction texts generalizing room with
  | nil => cases h
  | cons text texts ih =>
    cases room with
    | zero => rfl
    | succ room =>
      rw [List.map_cons, List.cons_append, beforeWrite, ih (by simpa using h), List.take_succ_cons, List.map_cons]

@[simp]
theorem told_append {effects' : List Effect} : told (effects ++ effects') = told effects ++ told effects' := by
  simp [told]

@[simp]
theorem told_writes : told (texts.map .write) = [] := by
  simp [told, diagnostic?]

@[simp]
theorem told_tells : told (diagnostics.map .tell) = diagnostics := by
  simp [told, diagnostic?, Function.comp_def]

end Effect

def Turn.unlimited (turn : Turn) : Turn := ⟨turn.name, ⟨turn.ends.stdin, {}⟩⟩

namespace Extraction

variable {x : Extraction} {stdin : Source} {name : Text} {entry : Text → Entry} {room : Nat} {kind : WriteFault}

theorem visit_limited_of_le (kind : WriteFault) (hstdin : stdin.fault = none)
    (h : (x.visit entry ⟨stdin, {}⟩ name).writes.length ≤ room) :
    x.visit entry ⟨stdin, .limited room kind⟩ name
      = ⟨(x.visit entry ⟨stdin, {}⟩ name).writes, (x.visit entry ⟨stdin, {}⟩ name).outcome,
          (x.visit entry ⟨stdin, {}⟩ name).ends.stdin,
          .limited (room - (x.visit entry ⟨stdin, {}⟩ name).writes.length) kind⟩ := by
  rcases x.visit_cases entry name with ⟨_, hvisit⟩ | ⟨_, data, hvisit⟩ | ⟨_, outcome, _, hvisit⟩
  . simp only [hvisit] at h ⊢
    rw [transfer_limited_of_le hstdin h]
    rfl
  . have hfile : (Source.ofBytes data).fault = none := rfl
    simp only [hvisit] at h ⊢
    rw [transfer_limited_of_le hfile h]
    rfl
  . simp only [hvisit]
    rfl

theorem visit_limited_of_lt (kind : WriteFault) (hstdin : stdin.fault = none)
    (h : room < (x.visit entry ⟨stdin, {}⟩ name).writes.length) :
    ∃ rest, rest.fault = none
      ∧ x.visit entry ⟨stdin, .limited room kind⟩ name
        = ⟨(x.visit entry ⟨stdin, {}⟩ name).writes.take room, (Stop.writeFailed kind).judge.map some, rest,
            .limited 0 kind⟩ := by
  rcases x.visit_cases entry name with ⟨_, hvisit⟩ | ⟨_, data, hvisit⟩ | ⟨_, outcome, _, hvisit⟩
  . simp only [hvisit] at h ⊢
    obtain ⟨rest, hrest⟩ := transfer_limited_of_lt kind hstdin h
    refine ⟨⟨rest, none⟩, rfl, ?_⟩
    rw [hrest]
    rfl
  . have hfile : (Source.ofBytes data).fault = none := rfl
    simp only [hvisit] at h ⊢
    obtain ⟨rest, hrest⟩ := transfer_limited_of_lt kind hfile h
    refine ⟨stdin, hstdin, ?_⟩
    rw [hrest]
    rfl
  . rw [hvisit] at h
    cases h

theorem outcome_visit_limited (hstdin : stdin.fault = none) :
    (x.visit entry ⟨stdin, .limited room kind⟩ name).outcome
      = if room < (x.visit entry ⟨stdin, {}⟩ name).writes.length then (Stop.writeFailed kind).judge.map some
        else (x.visit entry ⟨stdin, {}⟩ name).outcome := by
  split
  . next hroom =>
    obtain ⟨rest, _, hvisit⟩ := visit_limited_of_lt kind hstdin hroom
    rw [hvisit]
  . next hroom =>
    rw [visit_limited_of_le _ hstdin (Nat.le_of_not_lt hroom)]

theorem outcome_transfer_ne_noSpace (hstdin : stdin.fault = none) :
    (x.transfer stdin {}).outcome ≠ .ok (some .noSpace) := by
  rcases outcome_faultless (x := x) hstdin with h | ⟨e, h⟩ | ⟨mode, _, h⟩
  . simp [h]
  . simp [h]
  . simp [h]

theorem outcome_visit_ne_noSpace (entry : Text → Entry) (name : Text) (hstdin : stdin.fault = none) :
    (x.visit entry ⟨stdin, {}⟩ name).outcome ≠ .ok (some .noSpace) := by
  rcases x.visit_cases entry name with ⟨_, hvisit⟩ | ⟨_, data, hvisit⟩ | ⟨_, outcome, houtcome, hvisit⟩
  . rw [hvisit]
    exact outcome_transfer_ne_noSpace hstdin
  . have hfile : (Source.ofBytes data).fault = none := rfl
    rw [hvisit]
    exact outcome_transfer_ne_noSpace hfile
  . rw [hvisit]
    rcases houtcome with ⟨rfl, _⟩ | rfl | ⟨e, rfl⟩
    . simp
    . simp
    . simp

theorem visit_ends (entry : Text → Entry) (name : Text) (hstdin : stdin.fault = none) :
    ∃ rest, rest.fault = none ∧ (x.visit entry ⟨stdin, {}⟩ name).ends = ⟨rest, {}⟩ :=
  ⟨_, fault_unread name hstdin, ends_visit entry name hstdin⟩

theorem visit_limited_ends (x : Extraction) (entry : Text → Entry) (name : Text) (room : Nat) (kind : WriteFault)
    (hstdin : stdin.fault = none) :
    ∃ rest, rest.fault = none
      ∧ (x.visit entry ⟨stdin, .limited room kind⟩ name).writes.length ≤ room
      ∧ (x.visit entry ⟨stdin, .limited room kind⟩ name).ends
        = ⟨rest, .limited (room - (x.visit entry ⟨stdin, .limited room kind⟩ name).writes.length) kind⟩ := by
  by_cases hroom : (x.visit entry ⟨stdin, {}⟩ name).writes.length ≤ room
  . obtain ⟨rest, hrest, hends⟩ := visit_ends (x := x) entry name hstdin
    refine ⟨rest, hrest, ?_⟩
    rw [visit_limited_of_le _ hstdin hroom, hends]
    exact ⟨hroom, rfl⟩
  . rw [Nat.not_le] at hroom
    obtain ⟨rest, hrest, hvisit⟩ := visit_limited_of_lt kind hstdin hroom
    refine ⟨rest, hrest, ?_⟩
    rw [hvisit, List.length_take, Nat.min_eq_left (Nat.le_of_lt hroom), Nat.sub_self]
    exact ⟨Nat.le_refl _, rfl⟩

end Extraction

namespace Run

variable {x : Extraction} {program name : Text} {entry : Text → Entry} {names : List Text} {stdin : Source}
variable {room : Nat} {kind : WriteFault}

theorem ofNames_limited_of_le (hstdin : stdin.fault = none)
    (h : (ofNames x program entry ⟨stdin, {}⟩ names).writes.length ≤ room) :
    ofNames x program entry ⟨stdin, .limited room kind⟩ names = ofNames x program entry ⟨stdin, {}⟩ names := by
  induction names generalizing stdin room with
  | nil => rfl
  | cons name names ih =>
    obtain ⟨rest, hrest, hends⟩ := Extraction.visit_ends (x := x) entry name hstdin
    cases houtcome : (x.visit entry ⟨stdin, {}⟩ name).outcome with
    | error abort =>
      rw [ofNames_cons_of_error houtcome] at h
      have hvisit := Extraction.visit_limited_of_le kind hstdin h
      rw [ofNames_cons_of_error houtcome, ofNames_cons_of_error (by rw [hvisit]; exact houtcome), hvisit]
    | ok complaint =>
      rw [ofNames_cons_of_ok houtcome, hends, List.length_append] at h
      have hvisit := Extraction.visit_limited_of_le kind hstdin (Nat.le_of_add_right_le h)
      rw [ofNames_cons_of_ok houtcome, ofNames_cons_of_ok (by rw [hvisit]; exact houtcome), hvisit, hends]
      rw [ih hrest (by omega)]

theorem take_writes_ofNames_cons {ends : Ends} (h : room < (x.visit entry ends name).writes.length) :
    (ofNames x program entry ends (name :: names)).writes.take room = (x.visit entry ends name).writes.take room := by
  cases houtcome : (x.visit entry ends name).outcome with
  | error abort => rw [ofNames_cons_of_error houtcome]
  | ok complaint => rw [ofNames_cons_of_ok houtcome, List.take_append_of_le_length (Nat.le_of_lt h)]

theorem writes_ofNames_limited (hstdin : stdin.fault = none) :
    (ofNames x program entry ⟨stdin, .limited room kind⟩ names).writes
      = (ofNames x program entry ⟨stdin, {}⟩ names).writes.take room := by
  induction names generalizing stdin room with
  | nil => simp [ofNames]
  | cons name names ih =>
    obtain ⟨rest, hrest, hends⟩ := Extraction.visit_ends (x := x) entry name hstdin
    by_cases hroom : (x.visit entry ⟨stdin, {}⟩ name).writes.length ≤ room
    . have hvisit := Extraction.visit_limited_of_le kind hstdin hroom
      cases houtcome : (x.visit entry ⟨stdin, {}⟩ name).outcome with
      | error abort =>
        rw [ofNames_cons_of_error houtcome, ofNames_cons_of_error (by rw [hvisit]; exact houtcome), hvisit,
          List.take_of_length_le hroom]
      | ok complaint =>
        rw [ofNames_cons_of_ok houtcome, ofNames_cons_of_ok (by rw [hvisit]; exact houtcome), hvisit, hends, ih hrest,
          List.take_append, List.take_of_length_le hroom]
    . rw [Nat.not_le] at hroom
      obtain ⟨rest', hrest', hvisit⟩ := Extraction.visit_limited_of_lt kind hstdin hroom
      rw [take_writes_ofNames_cons hroom]
      cases kind with
      | brokenPipe => rw [ofNames_cons_of_error (by rw [hvisit]; rfl), hvisit]
      | noSpace =>
        -- The run goes on, but the sink stays full.
        rw [ofNames_cons_of_ok (by rw [hvisit]; rfl), hvisit, ih hrest', List.take_zero, List.append_nil]

theorem effects_brokenPipe (hstdin : stdin.fault = none) :
    effects x program entry ⟨stdin, .limited room .brokenPipe⟩ names
      = Effect.beforeWrite room (effects x program entry ⟨stdin, {}⟩ names) := by
  induction names generalizing stdin room with
  | nil => simp [effects, turns, Effect.beforeWrite]
  | cons name names ih =>
    obtain ⟨rest, hrest, hends⟩ := Extraction.visit_ends (x := x) entry name hstdin
    by_cases hroom : (x.visit entry ⟨stdin, {}⟩ name).writes.length ≤ room
    . have hvisit := Extraction.visit_limited_of_le .brokenPipe hstdin hroom
      cases houtcome : (x.visit entry ⟨stdin, {}⟩ name).outcome with
      | error abort =>
        have hall : Effect.beforeWrite room ((x.visit entry ⟨stdin, {}⟩ name).writes.map .write ++ []) = _ :=
          Effect.beforeWrite_writes_append_of_le hroom
        rw [List.append_nil, Effect.beforeWrite, List.append_nil] at hall
        rw [effects_cons_of_error houtcome, effects_cons_of_error (by rw [hvisit]; exact houtcome), hvisit, hall]
      | ok complaint =>
        rw [effects_cons_of_ok houtcome, effects_cons_of_ok (by rw [hvisit]; exact houtcome), hvisit, hends, ih hrest,
          Effect.beforeWrite_writes_append_of_le hroom, Effect.beforeWrite_tells_append]
    . rw [Nat.not_le] at hroom
      obtain ⟨rest', _, hvisit⟩ := Extraction.visit_limited_of_lt .brokenPipe hstdin hroom
      obtain ⟨later, hlater⟩ := effects_cons x program entry ⟨stdin, {}⟩ name names
      rw [hlater, Effect.beforeWrite_writes_append_of_lt hroom, effects_cons_of_error (by rw [hvisit]; rfl), hvisit]

theorem exists_turn_writeFailed (program : Text) (kind : WriteFault) (hstdin : stdin.fault = none)
    (h : room < (ofNames x program entry ⟨stdin, {}⟩ names).writes.length) :
    ∃ turn ∈ turns x entry ⟨stdin, .limited room kind⟩ names,
      (turn.visit x entry).outcome = (Stop.writeFailed kind).judge.map some := by
  induction names generalizing stdin room with
  | nil => cases h
  | cons name names ih =>
    obtain ⟨rest, hrest, hends⟩ := Extraction.visit_ends (x := x) entry name hstdin
    by_cases hroom : (x.visit entry ⟨stdin, {}⟩ name).writes.length ≤ room
    . have hvisit := Extraction.visit_limited_of_le kind hstdin hroom
      cases houtcome : (x.visit entry ⟨stdin, {}⟩ name).outcome with
      | error abort =>
        rw [ofNames_cons_of_error houtcome] at h
        exact absurd hroom (Nat.not_le.mpr h)
      | ok complaint =>
        rw [ofNames_cons_of_ok houtcome, hends, List.length_append] at h
        rw [turns_cons_of_ok (by rw [hvisit]; exact houtcome), hvisit, hends]
        obtain ⟨turn, hturn, hfailed⟩ := ih hrest (Nat.sub_lt_left_of_lt_add hroom h)
        exact ⟨turn, .tail _ hturn, hfailed⟩
    . rw [Nat.not_le] at hroom
      obtain ⟨rest', _, hvisit⟩ := Extraction.visit_limited_of_lt kind hstdin hroom
      obtain ⟨later, hlater⟩ := turns_cons x entry ⟨stdin, .limited room kind⟩ name names
      exact ⟨⟨name, ⟨stdin, .limited room kind⟩⟩, by simp [hlater], by rw [Turn.visit, hvisit]⟩

theorem turns_limited {k : Nat} {turn : Turn} (hstdin : stdin.fault = none)
    (h : (turns x entry ⟨stdin, .limited room kind⟩ names)[k]? = some turn) :
    let before := (turns x entry ⟨stdin, .limited room kind⟩ names).take k
    let written := (before.flatMap fun turn => (turn.visit x entry).writes).length
    ∃ rest, rest.fault = none ∧ written ≤ room ∧ turn.ends = ⟨rest, .limited (room - written) kind⟩ := by
  induction names generalizing stdin room k with
  | nil => simp [turns] at h
  | cons name names ih =>
    cases k with
    | zero =>
      obtain ⟨later, hlater⟩ := turns_cons x entry ⟨stdin, .limited room kind⟩ name names
      rw [hlater, List.getElem?_cons_zero, Option.some.injEq] at h
      subst h
      exact ⟨stdin, hstdin, Nat.zero_le _, rfl⟩
    | succ k =>
      obtain ⟨rest, hrest, hroom, hends⟩ :=
        x.visit_limited_ends entry name room kind hstdin
      cases houtcome : (x.visit entry ⟨stdin, .limited room kind⟩ name).outcome with
      | error abort =>
        rw [turns_cons_of_error houtcome] at h
        simp at h
      | ok complaint =>
        rw [turns_cons_of_ok houtcome, List.getElem?_cons_succ, hends] at h
        obtain ⟨rest', hrest', hroom', hends'⟩ := ih hrest h
        refine ⟨rest', hrest', ?_⟩
        rw [turns_cons_of_ok houtcome, List.take_succ_cons, List.flatMap_cons, List.length_append, hends, hends',
          Nat.sub_sub]
        exact ⟨Nat.add_le_of_le_sub' hroom hroom', rfl⟩

theorem told_effects {ends : Ends} :
    Effect.told (effects x program entry ends names) = (ofNames x program entry ends names).diagnostics := by
  rw [ofNames_eq_ofTurns]
  simp only [effects, ofTurns]
  induction turns x entry ends names with
  | nil => rfl
  | cons turn turns ih =>
    rw [List.flatMap_cons, List.flatMap_cons, Effect.told_append, ih]
    simp [Turn.effects]

theorem abort_noSpace (hx : ∀ mode, x.mode ≠ .unknown mode) (hnames : ∀ name ∈ names, '\x00' ∉ name)
    (hstdin : stdin.fault = none) :
    (ofNames x program entry ⟨stdin, .limited room .noSpace⟩ names).abort = none := by
  cases habort : (ofNames x program entry ⟨stdin, .limited room .noSpace⟩ names).abort with
  | none => rfl
  | some abort =>
    obtain ⟨⟨name, ends⟩, hturn, houtcome, _⟩ := stopsAt_of_abort habort
    obtain ⟨k, hk⟩ := List.mem_iff_getElem?.mp hturn
    obtain ⟨rest, hrest, _, rfl⟩ := turns_limited hstdin hk
    obtain ⟨⟨complaint, hfree⟩, _⟩ :=
      Extraction.visit_faultless entry hx hrest (hnames name (name_mem_of_turn hturn))
    rw [Turn.visit, Extraction.outcome_visit_limited hrest, hfree] at houtcome
    split at houtcome
    . cases houtcome
    . cases houtcome

theorem ofNames_limited (x : Extraction) (program : Text) (entry : Text → Entry) (data : Bytes) (names : List Text)
    (n : Nat) (hx : ∀ mode, x.mode ≠ .unknown mode) (hnames : ∀ name ∈ names, '\x00' ∉ name) :
    let stdin : Source := .ofBytes data
    let whole := ofNames x program entry ⟨stdin, {}⟩ names
    let limited := fun kind => ofNames x program entry ⟨stdin, .limited n kind⟩ names
    (∀ kind, (limited kind).writes = whole.writes.take n)
      ∧ (whole.writes.length ≤ n → ∀ kind, limited kind = whole)
      ∧ (n < whole.writes.length →
          (limited .brokenPipe).abort = some .brokenPipe
            ∧ (limited .brokenPipe).diagnostics
              = Effect.told (Effect.beforeWrite n (effects x program entry ⟨stdin, {}⟩ names))
            ∧ ∃ name, StopsAt x program entry ⟨stdin, .limited n .brokenPipe⟩ names name)
      ∧ (n < whole.writes.length →
          let turns := turns x entry ⟨stdin, .limited n .noSpace⟩ names
          limited .noSpace = ofTurns x program entry turns
            ∧ turns.map Turn.name = names
            ∧ (limited .noSpace).abort = none
            ∧ (limited .noSpace).status = 1
            ∧ ∀ k turn, turns[k]? = some turn →
                let written := ((turns.take k).flatMap fun turn => (turn.visit x entry).writes).length
                let wanted := (turn.unlimited.visit x entry).writes.length
                ((turn.visit x entry).outcome = .ok (some .noSpace) ↔ n < written + wanted)
                  ∧ (written + wanted ≤ n → (turn.visit x entry).outcome = (turn.unlimited.visit x entry).outcome))
      ∧ ∀ name, Diagnostic.message ⟨program, name, .noSpace⟩
          = program ++ ": ".toList ++ name ++ ": ".toList ++ "No space left on device".toList := by
  intro stdin whole limited
  have hstdin : stdin.fault = none := rfl
  refine ⟨fun kind => writes_ofNames_limited hstdin, fun h kind => ofNames_limited_of_le hstdin h, ?_, ?_, fun _ => rfl⟩
  . intro h
    obtain ⟨turn, hturn, houtcome⟩ := exists_turn_writeFailed program .brokenPipe hstdin h
    have habort : (limited .brokenPipe).abort = some .brokenPipe := abort_of_turn hturn houtcome
    obtain ⟨last, _, _, hstop⟩ := stopsAt_of_abort habort
    refine ⟨habort, ?_, last.name, hstop⟩
    rw [← effects_brokenPipe hstdin, told_effects]
  . intro h turns
    have habort : (limited .noSpace).abort = none := abort_noSpace hx hnames hstdin
    obtain ⟨turn, hturn, houtcome⟩ := exists_turn_writeFailed program .noSpace hstdin h
    have hmem := mem_diagnostics_of_turn program hturn houtcome
    refine ⟨ofNames_eq_ofTurns, map_name_turns habort, habort, if_neg (List.ne_nil_of_mem hmem), ?_⟩
    intro k turn hk written wanted
    obtain ⟨rest, hrest, hroom, hends⟩ :
        ∃ rest, rest.fault = none ∧ written ≤ n ∧ turn.ends = ⟨rest, .limited (n - written) .noSpace⟩ :=
      turns_limited hstdin hk
    have hfree : turn.unlimited.visit x entry = x.visit entry ⟨rest, {}⟩ turn.name := by
      rw [Turn.unlimited, Turn.visit, hends]
    have hwanted : wanted = (x.visit entry ⟨rest, {}⟩ turn.name).writes.length := by rw [← hfree]
    rw [hfree, Turn.visit, hends, Extraction.outcome_visit_limited hrest, ← hwanted]
    by_cases hfull : n - written < wanted
    . rw [if_pos hfull]
      exact ⟨iff_of_true rfl (by omega), by omega⟩
    . rw [if_neg hfull]
      exact ⟨iff_of_false (Extraction.outcome_visit_ne_noSpace entry turn.name hrest) (by omega), fun _ => rfl⟩

theorem ofNames_limited_comma :
    let x : Extraction := ⟨.fields [','], [⟨0, 1⟩]⟩
    let entry : Text → Entry := fun _ => .unavailable .notFound
    let stdin : Source := .ofBytes (Utf8.encode "a,b\n\"c\"d\ne,f\n".toList)
    let names := ["-".toList, "gone".toList, "-".toList]
    (∀ mode, x.mode ≠ .unknown mode)
      ∧ (∀ name ∈ names, '\x00' ∉ name)
      ∧ 1 < (ofNames x "cut".toList entry ⟨stdin, {}⟩ names).writes.length
      ∧ (ofNames x "cut".toList entry ⟨stdin, .limited 1 .brokenPipe⟩ names).writes = ["a\n".toList]
      ∧ (ofNames x "cut".toList entry ⟨stdin, .limited 1 .brokenPipe⟩ names).diagnostics
        = [⟨"cut".toList, "-".toList, .malformed ⟨2, .strayAfterQuote 4⟩⟩,
          ⟨"cut".toList, "gone".toList, .unavailable .notFound⟩] := by
  intro x entry stdin names
  have hx : ∀ mode, x.mode ≠ .unknown mode := by simp [x]
  have hnames : ∀ name ∈ names, '\x00' ∉ name := by decide
  have hmore : 1 < (ofNames x "cut".toList entry ⟨stdin, {}⟩ names).writes.length := by decide +kernel
  obtain ⟨hwrites, _, hbroken, _⟩ :=
    ofNames_limited x "cut".toList entry (Utf8.encode "a,b\n\"c\"d\ne,f\n".toList) names 1 hx hnames
  refine ⟨hx, hnames, hmore, ?_, ?_⟩
  . rw [hwrites]
    decide +kernel
  . rw [(hbroken hmore).2.1]
    decide +kernel

end Run

end Excerpt
