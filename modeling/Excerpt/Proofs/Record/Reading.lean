import Excerpt.Proofs.Record.Grouping
import Excerpt.Record.Reader

/-!
This module contains how a reader reads lines that are divided into records: the lines of one record leave it as it
was, further on by these lines. So it gives one record for each group of lines, numbered by the lines before the
group, and an error for the remainder.
-/

namespace Excerpt

open Record

namespace Reader

/--
The reader behind `part`, which are the first lines of a record that `n` lines precede.
-/
def behind (n : Nat) (part : List Text) : Reader where
  lineCount := n + part.length
  held := if part = [] then none else some (n + 1, Text.ofLines part)

inductive Reads (delimiter : Text) : Reader → List Text → List Record → Reader → Prop
  | nil {reader : Reader} : Reads delimiter reader [] [] reader
  | cons {reader next last : Reader} {line : Text} {lines : List Text} {record : Option Record}
    {records : List Record} (h : reader.feed delimiter line = .ok (next, record))
    (hmore : Reads delimiter next lines records last)
    : Reads delimiter reader (line :: lines) (record.toList ++ records) last

section

variable {delimiter line : Text} {n : Nat} {lines more part group fields : List Text} {records records' : List Record}
variable {reader next last : Reader} {groups : List (List Text)} {e : RecordError}

@[simp]
theorem behind_nil : behind n [] = ⟨n, none⟩ := rfl

theorem behind_of_ne_nil (h : part ≠ []) : behind n part = ⟨n + part.length, some (n + 1, Text.ofLines part)⟩ := by
  rw [behind, if_neg h]

theorem gathered_behind : (behind n part).gathered line = (n + 1, Text.ofLines (part ++ [line])) := by
  by_cases hpart : part = []
  . subst hpart
    simp
  . rw [behind_of_ne_nil hpart, gathered_some, Text.ofLines_append hpart (by simp), Text.ofLines_singleton]

theorem feed_behind_of_leavesOpen (h : LeavesOpen delimiter (part ++ [line])) :
    (behind n part).feed delimiter line = .ok (behind n (part ++ [line]), none) := by
  rw [feed_of_unterminated gathered_behind h, behind_of_ne_nil (by simp : part ++ [line] ≠ [])]
  simp [behind, Nat.add_assoc]

theorem feed_behind_of_ok (h : split delimiter (Text.ofLines (part ++ [line])) = .ok fields) :
    (behind n part).feed delimiter line = .ok (behind (n + (part ++ [line]).length) [], some ⟨n + 1, fields⟩) := by
  rw [feed_of_ok gathered_behind h]
  simp [behind, Nat.add_assoc]

theorem feed_behind_of_error (h : split delimiter (Text.ofLines (part ++ [line])) = .error e)
    (hclosed : ¬ LeavesOpen delimiter (part ++ [line])) :
    (behind n part).feed delimiter line = .error ⟨n + 1, e⟩ := by
  cases e with
  | unterminatedQuote => exact absurd h hclosed
  | strayAfterQuote column => exact feed_of_stray gathered_behind h

theorem Reads.append (h : Reads delimiter reader lines records next) (h' : Reads delimiter next more records' last) :
    Reads delimiter reader (lines ++ more) (records ++ records') last := by
  induction h with
  | nil => exact h'
  | cons hfeed _ ih =>
    rw [List.append_assoc]
    exact .cons hfeed (ih h')

theorem Reads.of_pending (h : Pending delimiter (part ++ lines)) :
    Reads delimiter (behind n part) lines [] (behind n (part ++ lines)) := by
  -- Each line that is read moves from the lines ahead to the part behind.
  induction lines generalizing part with
  | nil =>
    rw [List.append_nil]
    exact .nil
  | cons line lines ih =>
    have happend : part ++ line :: lines = part ++ [line] ++ lines := by simp
    have hopen : LeavesOpen delimiter (part ++ [line]) := by
      apply h
      . rw [happend]
        apply List.prefix_append
      . simp
    rw [happend] at h
    rw [happend]
    exact .cons (feed_behind_of_leavesOpen hopen) (ih h)

theorem Reads.of_gathered (h : Gathered delimiter group) (hsplit : split delimiter (Text.ofLines group) = .ok fields) :
    Reads delimiter (behind n []) group [⟨n + 1, fields⟩] (behind (n + group.length) []) := by
  obtain ⟨part, line, rfl, hpending⟩ := h.exists_pending
  have hpart : Reads delimiter (behind n []) part [] (behind n part) := .of_pending hpending
  exact hpart.append (.cons (feed_behind_of_ok hsplit) .nil)

theorem Reads.of_records (n : Nat)
    (h : ∀ group ∈ groups, Gathered delimiter group ∧ ∃ fields, split delimiter (Text.ofLines group) = .ok fields) :
    ∃ records, Reads delimiter (behind n []) groups.flatten records (behind (n + groups.flatten.length) [])
      ∧ records.map (fun record => (record.line, Except.ok record.fields))
        = groups.mapIdx fun k group =>
            (n + 1 + (groups.take k).flatten.length, split delimiter (Text.ofLines group)) := by
  induction groups generalizing n with
  | nil => exact ⟨[], .nil, rfl⟩
  | cons group groups ih =>
    obtain ⟨hgroup, fields, hsplit⟩ := h group (.head _)
    obtain ⟨records, hreads, hrecords⟩ := ih (n + group.length) (fun g hg => h g (.tail _ hg))
    rw [Nat.add_assoc, ← List.length_append, ← List.flatten_cons] at hreads
    refine ⟨⟨n + 1, fields⟩ :: records, (Reads.of_gathered hgroup hsplit).append hreads, ?_⟩
    rw [List.map_cons, hrecords, List.mapIdx_cons, hsplit]
    simp [Nat.add_assoc, Nat.add_left_comm]

theorem Reads.run_append (h : Reads delimiter reader lines records last) :
    reader.run delimiter (lines ++ more)
      = (records ++ (last.run delimiter more).1, (last.run delimiter more).2) := by
  induction h with
  | nil => rfl
  | @cons reader next last line lines record records hfeed _ ih =>
    cases record with
    | none => simp [run, hfeed, ih]
    | some record => simp [run, hfeed, ih]

theorem run_remainder {last ignored : List Text} {e : Option RecordError}
    (h : Remainder delimiter last ignored e) :
    (behind n []).run delimiter (last ++ ignored) = ([], e.map (LineError.mk (n + 1))) := by
  cases h with
  | none => rfl
  | pending hne hpending =>
    have hreads : Reads delimiter (behind n []) last [] (behind n last) := .of_pending hpending
    rw [hreads.run_append, behind_of_ne_nil hne]
    rfl
  | malformed hlast he =>
    obtain ⟨part, line, rfl, hpending⟩ := hlast.exists_pending
    have hreads : Reads delimiter (behind n []) part [] (behind n part) := .of_pending hpending
    rw [List.append_assoc, hreads.run_append, List.singleton_append, run,
      feed_behind_of_error he hlast.not_leavesOpen]
    rfl

end

end Reader

theorem Record.readAll_grouping (delimiter : Text) (lines : List Text) :
    ∃ groups last ignored e,
      Grouping delimiter lines groups last ignored e
        ∧ (∀ groups' last' ignored' e', Grouping delimiter lines groups' last' ignored' e' →
            groups' = groups ∧ last' = last ∧ ignored' = ignored ∧ e' = e)
        ∧ (readAll delimiter lines).1.map (fun record => (record.line, Except.ok record.fields))
          = groups.mapIdx (fun k group =>
              (1 + (groups.take k).flatten.length, split delimiter (Text.ofLines group)))
        ∧ (readAll delimiter lines).2 = e.map (LineError.mk (1 + groups.flatten.length))
        ∧ ∀ n e, LineError.message ⟨n, e⟩ = "line ".toList ++ Text.ofNat n ++ ": ".toList ++ e.message := by
  obtain ⟨groups, last, ignored, e, h⟩ := grouping_exists delimiter lines
  obtain ⟨records, hreads, hrecords⟩ := Reader.Reads.of_records 0 h.record
  have hread : readAll delimiter lines = (records, e.map (LineError.mk (groups.flatten.length + 1))) := by
    rw [h.lines_eq, List.append_assoc, readAll, ← Reader.behind_nil, hreads.run_append,
      Reader.run_remainder h.remainder]
    simp
  refine ⟨groups, last, ignored, e, h, ?_, ?_, ?_, ?_⟩
  . intro groups' last' ignored' e' h'
    exact h'.unique h
  . rw [hread, hrecords, Nat.zero_add]
  . rw [hread, Nat.add_comm]
  . intro n e
    rfl

example :
    Record.readAll [','] ["a,\"b".toList, "c\"".toList, "\"d\"e".toList, "f".toList]
      = ([⟨1, ["a".toList, "b\nc".toList]⟩], some ⟨3, .strayAfterQuote 4⟩) := by
  cbv

end Excerpt
