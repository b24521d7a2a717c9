import Excerpt.Proofs.Record.Sharing
import Excerpt.Proofs.Run.Parts
import Excerpt.Proofs.Run.Turns
import Excerpt.Proofs.Stream.Lines
import Excerpt.Proofs.Stream.Records

/-!
This module contains how the names for standard input share it in a run without faults. Each of them begins with the
line that follows the last one read before, wherever the other names stand, so every line is read at most once. In field
mode each of them takes records up to the first one that cannot be split, and counts the lines from its own first one.
-/

namespace Excerpt

open Record

namespace Reader

variable {delimiter line : Text} {reader : Reader} {e : LineError}

theorem error_ne_of_feed (h : reader.feed delimiter line = .error e) : e.error ≠ .unterminatedQuote := by
  rcases hline : reader.gathered line with ⟨start, text⟩
  cases hsplit : Record.split delimiter text with
  | ok fields =>
    rw [feed_of_ok hline hsplit] at h
    cases h
  | error e' =>
    cases e' with
    | unterminatedQuote =>
      -- More lines could still complete the record, so the line is not refused.
      rw [feed_of_unterminated hline hsplit] at h
      cases h
    | strayAfterQuote column =>
      rw [feed_of_stray hline hsplit] at h
      cases h
      simp

end Reader

/--
The input has been read to its end: there is nothing to tell of it, or that its last quote is never closed.
-/
def Visit.ReachesEnd (visit : Visit) : Prop :=
  visit.outcome = .ok none ∨ ∃ n, visit.outcome = .ok (some (.malformed ⟨n, .unterminatedQuote⟩))

/--
A turn on standard input takes its share of `lines` from the one on that follows the lines `before`. It writes one text
for each record. The record that it gives up is told of by the number of its first line in the share.
-/
structure Turn.TakesShare (delimiter : Text) (selection : Selection) (entry : Text → Entry) (lines : List Bytes)
    (before : List Text) (share : Share) (turn : Turn) : Prop where
  name_eq : turn.name = stdinName
  ends_eq : turn.ends = ⟨⟨lines.drop before.length, none⟩, {}⟩
  writes_eq :
    (turn.visit ⟨.fields delimiter, selection⟩ entry).writes.map Except.ok
      = share.records.map fun group =>
          (Extraction.ofText ⟨.fields delimiter, selection⟩ (Text.ofLines group)).map (· ++ ['\n'])
  outcome_eq :
    (turn.visit ⟨.fields delimiter, selection⟩ entry).outcome
      = .ok (share.error.map fun e => .malformed ⟨share.records.flatten.length + 1, e⟩)
  leaves :
    (turn.visit ⟨.fields delimiter, selection⟩ entry).ends
      = ⟨⟨lines.drop (before ++ share.lines).length, none⟩, {}⟩

namespace Extraction

variable {x : Extraction} {source : Source} {lines : List Bytes} {reader : Reader} {entry : Text → Entry}
variable {delimiter : Text} {selection : Selection}

theorem visit_stdin {ends : Ends} :
    x.visit entry ends stdinName
      = ⟨(x.transfer ends.stdin ends.sink).writes, (x.transfer ends.stdin ends.sink).outcome,
          ⟨(x.transfer ends.stdin ends.sink).source, (x.transfer ends.stdin ends.sink).sink⟩⟩ := by
  rw [visit, if_pos rfl]

theorem transfer_nil : x.transfer ⟨[], none⟩ {} = ⟨[], none, ⟨[], none⟩, {}⟩ := go_nil

theorem unread_nil : x.unread ⟨[], none⟩ = ⟨[], none⟩ := congrArg Transfer.source transfer_nil

theorem visit_stdin_nil : x.visit entry ⟨⟨[], none⟩, {}⟩ stdinName = ⟨[], .ok none, ⟨⟨[], none⟩, {}⟩⟩ := by
  rw [visit_stdin, transfer_nil]
  rfl

theorem unread_of_reachesEnd (hsource : source.fault = none)
    (h : (x.visit entry ⟨source, {}⟩ stdinName).ReachesEnd) : x.unread source = ⟨[], none⟩ := by
  rw [Visit.ReachesEnd, visit_stdin] at h
  rw [unread]
  rw [transfer, hsource] at h ⊢
  rcases takes_or_stops x {} source.lines with ⟨writes, last, htakes⟩
    | ⟨front, line, back, writes, last, stop, hlines, htakes, hstop⟩
  . rw [htakes.go_eq]
  . exfalso
    rw [hlines, htakes.go_stop hstop] at h
    rcases feed_eq_error hstop with ⟨delimiter, e, hmode, rfl⟩ | ⟨mode, _, rfl⟩
    . rcases h with h | ⟨n, h⟩
      . cases h
      . cases h
        obtain ⟨mode, selection⟩ := x
        cases hmode
        cases hfeed : last.feed delimiter (Utf8.decode (Line.chomp line)) with
        | ok fed =>
          rw [feed_fields_of_ok selection hfeed] at hstop
          cases hstop
        | error e =>
          rw [feed_fields_of_error selection hfeed] at hstop
          cases hstop
          exact Reader.error_ne_of_feed hfeed rfl
    . rcases h with h | ⟨n, h⟩
      . cases h
      . cases h

theorem transfer_of_grouping (selection : Selection) {groups : List (List Text)} {last ignored : List Text}
    {e : Option RecordError}
    (h : Grouping delimiter (lines.map fun line => Utf8.decode (Line.chomp line)) groups last ignored e) :
    ∃ writes,
      transfer ⟨.fields delimiter, selection⟩ ⟨lines, none⟩ {}
          = ⟨writes, e.map fun e => .malformed ⟨groups.flatten.length + 1, e⟩,
              ⟨lines.drop (groups.flatten ++ last).length, none⟩, {}⟩
        ∧ writes.map Except.ok
          = groups.map fun group =>
              (ofText ⟨.fields delimiter, selection⟩ (Text.ofLines group)).map (· ++ ['\n']) := by
  obtain ⟨read, back, rfl, hread, rfl⟩ := List.map_eq_append_iff.mp h.lines_eq
  obtain ⟨front, middle, rfl, hfront, rfl⟩ := List.map_eq_append_iff.mp hread
  obtain ⟨records, hreads, hrecords⟩ := Reader.Reads.of_records 0 h.record
  rw [← hfront] at hreads
  have hgo := (Takes.of_reads selection hreads).go_append (middle ++ back)
  rw [go_remainder h.remainder, ← List.append_assoc, List.append_nil, Nat.zero_add, hfront] at hgo
  refine ⟨_, ?_, ok_writes_of_records hrecords⟩
  rw [transfer]
  refine hgo.trans ?_
  rw [← hread, List.length_map, List.drop_left]

theorem visit_of_text (entry : Text → Entry) (lines : List Bytes) (hmode : x.mode = .bytes ∨ x.mode = .chars) :
    (x.visit entry ⟨⟨lines, none⟩, {}⟩ stdinName).writes.map Except.ok
        = lines.map (fun line => (x.ofBytes (Line.chomp line)).map (· ++ ['\n']))
      ∧ (x.visit entry ⟨⟨lines, none⟩, {}⟩ stdinName).outcome = .ok none := by
  obtain ⟨text, htext⟩ := exists_text hmode
  have htransfer : x.transfer ⟨lines, none⟩ {} = _ := (takes_of_text fun line => (htext line).2).go_eq
  rw [visit_stdin, htransfer]
  refine ⟨?_, rfl⟩
  rw [List.map_map]
  refine List.map_congr_left fun line _ => ?_
  rw [(htext (Line.chomp line)).1]
  rfl

end Extraction

namespace Run

def stdinTurns (x : Extraction) (entry : Text → Entry) (ends : Ends) (names : List Text) : List Turn :=
  (turns x entry ends names).filter fun turn => turn.name = stdinName

variable {x : Extraction} {entry entry' : Text → Entry} {stdin : Source} {names names' front back : List Text}
variable {delimiter program : Text} {selection : Selection} {turn : Turn} {k : Nat}

theorem stdinTurns_cons_of_ok {name : Text} {complaint : Option Complaint} (hstdin : stdin.fault = none)
    (h : (x.visit entry ⟨stdin, {}⟩ name).outcome = .ok complaint) :
    stdinTurns x entry ⟨stdin, {}⟩ (name :: names)
      = if name = stdinName then
          ⟨stdinName, ⟨stdin, {}⟩⟩ :: stdinTurns x entry ⟨x.unread stdin, {}⟩ names
        else
          stdinTurns x entry ⟨stdin, {}⟩ names := by
  rw [stdinTurns, turns_cons_of_ok h, Extraction.ends_visit entry name hstdin]
  by_cases hdash : name = stdinName
  . subst hdash
    rw [if_pos rfl, if_pos rfl, List.filter_cons_of_pos (by simp), stdinTurns]
  . rw [if_neg hdash, if_neg hdash, List.filter_cons_of_neg (by simpa using hdash), stdinTurns]

theorem stdinTurns_eq_iterate (hstdin : stdin.fault = none) :
    stdinTurns x entry ⟨stdin, {}⟩ names
      = (List.iterate x.unread stdin (stdinTurns x entry ⟨stdin, {}⟩ names).length).map fun source =>
          ⟨stdinName, ⟨source, {}⟩⟩ := by
  -- A name for standard input takes the iteration one step further, and every other name leaves it where it is.
  induction names generalizing stdin with
  | nil => rfl
  | cons name names ih =>
    cases houtcome : (x.visit entry ⟨stdin, {}⟩ name).outcome with
    | error abort =>
      rw [stdinTurns, turns_cons_of_error houtcome]
      by_cases hdash : name = stdinName
      . subst hdash
        rfl
      . simp [hdash]
    | ok complaint =>
      rw [stdinTurns_cons_of_ok hstdin houtcome]
      split
      . rw [List.length_cons, List.iterate, List.map_cons]
        exact congrArg _ (ih (Extraction.transfer_ends hstdin).1)
      . exact ih hstdin

theorem getElem?_stdinTurns (hstdin : stdin.fault = none)
    (h : (stdinTurns x entry ⟨stdin, {}⟩ names)[k]? = some turn) :
    turn = ⟨stdinName, ⟨x.unread^[k] stdin, {}⟩⟩ := by
  obtain ⟨hk, _⟩ := List.getElem?_eq_some_iff.mp h
  rw [stdinTurns_eq_iterate hstdin, List.getElem?_map, List.getElem?_iterate _ _ _ _ hk] at h
  exact (Option.some.inj h).symm

theorem stdinTurns_congr (hstdin : stdin.fault = none)
    (h : (stdinTurns x entry' ⟨stdin, {}⟩ names').length = (stdinTurns x entry ⟨stdin, {}⟩ names).length) :
    stdinTurns x entry' ⟨stdin, {}⟩ names' = stdinTurns x entry ⟨stdin, {}⟩ names := by
  rw [stdinTurns_eq_iterate hstdin, h, ← stdinTurns_eq_iterate hstdin]

theorem takesShare_of_grouping {lines : List Bytes} {more : List Text} {share : Share} (selection : Selection)
    (entry : Text → Entry)
    (h : Grouping delimiter (lines.map fun line => Utf8.decode (Line.chomp line)) share.records share.abandoned more
      share.error) :
    Turn.TakesShare delimiter selection entry lines [] share ⟨stdinName, ⟨⟨lines, none⟩, {}⟩⟩ := by
  obtain ⟨writes, htransfer, hwrites⟩ := Extraction.transfer_of_grouping selection h
  have hvisit : Turn.visit ⟨.fields delimiter, selection⟩ entry ⟨stdinName, ⟨⟨lines, none⟩, {}⟩⟩
      = ⟨writes, .ok (share.error.map fun e => .malformed ⟨share.records.flatten.length + 1, e⟩),
          ⟨⟨lines.drop share.lines.length, none⟩, {}⟩⟩ := by
    rw [Turn.visit, Extraction.visit_stdin, htransfer]
    cases share.error with
    | none => rfl
    | some e => rfl
  refine ⟨rfl, rfl, ?_, ?_, ?_⟩
  . rw [hvisit]
    exact hwrites
  . rw [hvisit]
  . rw [hvisit]
    rfl

theorem takesShare_of_drop {lines : List Bytes} {part before : List Text} {share : Share}
    (h : turn.TakesShare delimiter selection entry (lines.drop part.length) before share) :
    turn.TakesShare delimiter selection entry lines (part ++ before) share where
  name_eq := h.name_eq
  ends_eq := by rw [h.ends_eq, List.drop_drop, List.length_append]
  writes_eq := h.writes_eq
  outcome_eq := h.outcome_eq
  leaves := by rw [h.leaves, List.drop_drop, ← List.length_append, ← List.append_assoc]

theorem takesShare_of_shared {lines : List Bytes} {shares : List Share} {left : List Text} {share : Share}
    (h : Shared delimiter (lines.map fun line => Utf8.decode (Line.chomp line)) shares left)
    (hk : shares[k]? = some share) :
    Turn.TakesShare delimiter selection entry lines ((shares.take k).flatMap Share.lines) share
      ⟨stdinName, ⟨(Extraction.unread ⟨.fields delimiter, selection⟩)^[k] ⟨lines, none⟩, {}⟩⟩ := by
  generalize htexts : lines.map (fun line => Utf8.decode (Line.chomp line)) = texts at h
  induction h generalizing lines k with
  | nil => cases hk
  | @cons texts more left first shares hgrouping hmore ih =>
    subst htexts
    have hfirst := takesShare_of_grouping selection entry hgrouping
    cases k with
    | zero =>
      cases hk
      exact hfirst
    | succ k =>
      have hunread : Extraction.unread ⟨.fields delimiter, selection⟩ ⟨lines, none⟩
          = ⟨lines.drop first.lines.length, none⟩ := by
        have hleaves := hfirst.leaves
        rw [Turn.visit, Extraction.visit_stdin] at hleaves
        exact congrArg Ends.stdin hleaves
      have hlines : List.map _ lines = first.lines ++ more := hgrouping.lines_eq
      rw [Function.iterate_succ_apply, hunread, List.take_succ_cons, List.flatMap_cons]
      refine takesShare_of_drop (ih hk ?_)
      rw [List.map_drop, hlines, List.drop_left]

theorem length_stdinTurns {ends : Ends} (h : (ofNames x program entry ends names).abort = none) :
    (stdinTurns x entry ends names).length = names.count stdinName := by
  have hnames := map_name_turns h
  calc
    (stdinTurns x entry ends names).length = ((turns x entry ends names).map Turn.name).count stdinName := by
      rw [stdinTurns, ← List.countP_eq_length_filter, List.count, List.countP_map]
      exact List.countP_congr (by simp)
    _ = names.count stdinName := by rw [hnames]

theorem fault_unread_iterate (hstdin : stdin.fault = none) : (x.unread^[k] stdin).fault = none := by
  induction k generalizing stdin with
  | zero => exact hstdin
  | succ k ih => exact ih (Extraction.transfer_ends hstdin).1

theorem visit_stdinTurns_of_reachesEnd {i j : Nat} {later : Turn} (hstdin : stdin.fault = none) (hij : i < j)
    (hi : (stdinTurns x entry ⟨stdin, {}⟩ names)[i]? = some turn)
    (hj : (stdinTurns x entry ⟨stdin, {}⟩ names)[j]? = some later) (h : (turn.visit x entry).ReachesEnd) :
    later.visit x entry = ⟨[], .ok none, ⟨⟨[], none⟩, {}⟩⟩ := by
  obtain rfl := getElem?_stdinTurns hstdin hi
  obtain rfl := getElem?_stdinTurns hstdin hj
  have hunread := Extraction.unread_of_reachesEnd (fault_unread_iterate hstdin) h
  obtain ⟨d, rfl⟩ := Nat.exists_eq_add_of_lt hij
  have hempty : x.unread^[i + d + 1] stdin = ⟨[], none⟩ := by
    rw [Nat.add_right_comm, Nat.add_comm, Function.iterate_add_apply, Function.iterate_succ_apply', hunread]
    exact Function.iterate_fixed Extraction.unread_nil d
  rw [hempty]
  exact Extraction.visit_stdin_nil

theorem ofNames_append_stdinName (hstdin : stdin.fault = none)
    (h : stdin = ⟨[], none⟩ ∨ ∃ turn ∈ stdinTurns x entry ⟨stdin, {}⟩ front, (turn.visit x entry).ReachesEnd) :
    ofNames x program entry ⟨stdin, {}⟩ (front ++ stdinName :: back)
      = ofNames x program entry ⟨stdin, {}⟩ (front ++ back) := by
  induction front generalizing stdin with
  | nil =>
    rcases h with rfl | ⟨turn, hturn, _⟩
    . have hvisit : x.visit entry ⟨⟨[], none⟩, {}⟩ stdinName = _ := Extraction.visit_stdin_nil
      rw [List.nil_append, ofNames_cons_of_ok (by rw [hvisit]), hvisit]
      rfl
    . cases hturn
  | cons name front ih =>
    rw [List.cons_append, List.cons_append]
    cases houtcome : (x.visit entry ⟨stdin, {}⟩ name).outcome with
    | error abort => rw [ofNames_cons_of_error houtcome, ofNames_cons_of_error houtcome]
    | ok complaint =>
      rw [stdinTurns_cons_of_ok hstdin houtcome] at h
      rw [ofNames_cons_of_ok houtcome, ofNames_cons_of_ok houtcome, Extraction.ends_visit entry name hstdin, ih]
      . exact Extraction.fault_unread name hstdin
      . split
        . next hdash =>
          rw [if_pos hdash] at h
          rcases h with rfl | ⟨turn, hturn, hend⟩
          . exact .inl Extraction.unread_nil
          . cases hturn with
            | head => exact .inl (Extraction.unread_of_reachesEnd hstdin hend)
            | tail _ hturn => exact .inr ⟨turn, hturn, hend⟩
        . next hdash =>
          rw [if_neg hdash] at h
          exact h

theorem stdin_shared (x : Extraction) (program : Text) (entry : Text → Entry) (data : Bytes) (names : List Text) :
    let run := ofNames x program entry ⟨.ofBytes data, {}⟩
    let dashes := stdinTurns x entry ⟨.ofBytes data, {}⟩ names
    run names = ofTurns x program entry (turns x entry ⟨.ofBytes data, {}⟩ names)
      ∧ ((∀ mode, x.mode ≠ .unknown mode) → (∀ name ∈ names, '\x00' ∉ name) →
          dashes.length = names.count stdinName)
      ∧ (∀ delimiter, x.mode = .fields delimiter →
          ∃ shares left,
            Shared delimiter (Line.texts data) shares left
              ∧ shares.length = dashes.length
              ∧ (∀ shares' left', Shared delimiter (Line.texts data) shares' left' →
                  shares'.length = dashes.length → shares' = shares ∧ left' = left)
              ∧ Line.texts data = shares.flatMap Share.lines ++ left
              ∧ ∀ k share (turn : Turn), shares[k]? = some share → dashes[k]? = some turn →
                  turn.TakesShare delimiter x.selection entry (Line.split data) ((shares.take k).flatMap Share.lines)
                    share)
      ∧ (x.mode = .bytes ∨ x.mode = .chars → ∀ turn : Turn, dashes[0]? = some turn →
          (turn.visit x entry).writes.map Except.ok
              = (Line.split data).map (fun line => (x.ofBytes (Line.chomp line)).map (· ++ ['\n']))
            ∧ (turn.visit x entry).outcome = .ok none)
      ∧ (∀ turn ∈ dashes, (turn.visit x entry).ReachesEnd → (turn.visit x entry).ends.stdin.lines = [])
      ∧ (∀ (i j : Nat) (turn later : Turn), i < j → dashes[i]? = some turn → dashes[j]? = some later →
          (turn.visit x entry).ReachesEnd →
            (later.visit x entry).writes = [] ∧ (later.visit x entry).outcome = .ok none)
      ∧ (∀ front back, names = front ++ stdinName :: back →
          (∃ turn ∈ stdinTurns x entry ⟨.ofBytes data, {}⟩ front, (turn.visit x entry).ReachesEnd) →
            run names = run (front ++ back))
      ∧ (∀ entry' names', (stdinTurns x entry' ⟨.ofBytes data, {}⟩ names').length = dashes.length →
          stdinTurns x entry' ⟨.ofBytes data, {}⟩ names' = dashes
            ∧ ∀ turn ∈ dashes, turn.visit x entry' = turn.visit x entry) := by
  intro run dashes
  have hstdin : (Source.ofBytes data).fault = none := rfl
  refine ⟨ofNames_eq_ofTurns, ?_, ?_, ?_, ?_, ?_, ?_, ?_⟩
  . intro hx hnames
    have habort : (run names).abort = none := congrArg Run.abort (ofNames_faultless hx hstdin hnames)
    exact length_stdinTurns habort
  . intro delimiter hmode
    obtain ⟨mode, selection⟩ := x
    cases hmode
    obtain ⟨shares, left, hshared, hlength⟩ := Shared.exists_of_length delimiter (Line.texts data) dashes.length
    refine ⟨shares, left, hshared, hlength, ?_, hshared.lines_eq, ?_⟩
    . intro shares' left' hshared' hlength'
      exact hshared'.unique hshared (hlength'.trans hlength.symm)
    . intro k share turn hshare hturn
      obtain rfl := getElem?_stdinTurns hstdin hturn
      exact takesShare_of_shared hshared hshare
  . intro hmode turn hturn
    obtain rfl := getElem?_stdinTurns hstdin hturn
    exact Extraction.visit_of_text entry (Line.split data) hmode
  . intro turn hturn hend
    obtain ⟨k, hk⟩ := List.mem_iff_getElem?.mp hturn
    obtain rfl := getElem?_stdinTurns hstdin hk
    exact congrArg Source.lines (Extraction.unread_of_reachesEnd (fault_unread_iterate hstdin) hend)
  . intro i j turn later hij hi hj hend
    rw [visit_stdinTurns_of_reachesEnd hstdin hij hi hj hend]
    exact ⟨rfl, rfl⟩
  . rintro front back rfl hend
    exact ofNames_append_stdinName hstdin (.inr hend)
  . intro entry' names' hlength
    refine ⟨stdinTurns_congr hstdin hlength, ?_⟩
    intro turn hturn
    have hname : turn.name = stdinName := by simpa using (List.mem_filter.mp hturn).2
    rw [Turn.visit, Turn.visit, hname, Extraction.visit_stdin, Extraction.visit_stdin]

example :
    (ofNames ⟨.fields [','], [⟨0, 1⟩]⟩ "cut".toList (fun _ => .directory)
        ⟨.ofBytes (Utf8.encode "a,b\n\"c\"d\ne,f\n\"g".toList), {}⟩
        ["-".toList, "gone".toList, "-".toList, "-".toList]).diagnostics
      = [⟨"cut".toList, "-".toList, .malformed ⟨2, .strayAfterQuote 4⟩⟩, ⟨"cut".toList, "gone".toList, .isDirectory⟩,
          ⟨"cut".toList, "-".toList, .malformed ⟨2, .unterminatedQuote⟩⟩] := by
  decide +kernel

end Run
end Excerpt
