import Mathlib.Data.List.Basic
import Mathlib.Data.List.Induction
import Excerpt.Proofs.Text.LineBreak
import Excerpt.Record.Basic

/-!
This module contains the division of lines into the lines of one record after the other. A record takes as few lines
as possible: it ends with the first line that leaves no quoted field open. Every list of lines can be divided in
exactly one way.
-/

namespace Excerpt
namespace Record

def LeavesOpen (delimiter : Text) (lines : List Text) : Prop :=
  split delimiter (Text.ofLines lines) = .error .unterminatedQuote

def Pending (delimiter : Text) (lines : List Text) : Prop :=
  ∀ front, front <+: lines → front ≠ [] → LeavesOpen delimiter front

/--
The lines of one record: they leave no quoted field open, but do so if they are cut off anywhere before.
-/
structure Gathered (delimiter : Text) (lines : List Text) : Prop where
  ne_nil : lines ≠ []
  not_leavesOpen : ¬ LeavesOpen delimiter lines
  leavesOpen : ∀ front, front <+: lines → front ≠ [] → front ≠ lines → LeavesOpen delimiter front

/--
What follows the last record that can be split: the lines that are still read, the lines that are ignored, and the
error in the former.
-/
inductive Remainder (delimiter : Text) : List Text → List Text → Option RecordError → Prop
  | none : Remainder delimiter [] [] none
  | pending {last : List Text} (hne : last ≠ []) (h : Pending delimiter last)
    : Remainder delimiter last [] (some .unterminatedQuote)
  | malformed {last ignored : List Text} {e : RecordError} (h : Gathered delimiter last)
    (he : split delimiter (Text.ofLines last) = .error e)
    : Remainder delimiter last ignored (some e)

/--
Lines divided from the left into `groups`, each of them the lines of a record that can be split, and a remainder.
-/
structure Grouping (delimiter : Text) (lines : List Text) (groups : List (List Text)) (last ignored : List Text)
    (e : Option RecordError) : Prop where
  lines_eq : lines = groups.flatten ++ last ++ ignored
  record : ∀ group ∈ groups, Gathered delimiter group ∧ ∃ fields, split delimiter (Text.ofLines group) = .ok fields
  remainder : Remainder delimiter last ignored e

section

variable {delimiter line : Text} {lines part group group' rest rest' last ignored fields : List Text}
variable {groups : List (List Text)} {e : Option RecordError}

theorem Pending.nil : Pending delimiter [] := by
  intro front hfront hne
  exact absurd (List.prefix_nil.mp hfront) hne

theorem Pending.concat (h : Pending delimiter part) (hopen : LeavesOpen delimiter (part ++ [line])) :
    Pending delimiter (part ++ [line]) := by
  intro front hfront hne
  cases List.prefix_concat_iff.mp hfront with
  | inl heq => rwa [heq]
  | inr hfront => exact h front hfront hne

theorem Pending.gathered (h : Pending delimiter part) (hclosed : ¬ LeavesOpen delimiter (part ++ [line])) :
    Gathered delimiter (part ++ [line]) where
  ne_nil := by simp
  not_leavesOpen := hclosed
  leavesOpen := by
    intro front hfront hne hproper
    cases List.prefix_concat_iff.mp hfront with
    | inl heq => exact absurd heq hproper
    | inr hfront => exact h front hfront hne

theorem Gathered.exists_pending (h : Gathered delimiter group) :
    ∃ part line, group = part ++ [line] ∧ Pending delimiter part := by
  obtain hnil | ⟨part, line, rfl⟩ := group.eq_nil_or_concat'
  . exact absurd hnil h.ne_nil
  . refine ⟨part, line, rfl, ?_⟩
    intro front hfront hne
    apply h.leavesOpen front (hfront.trans (List.prefix_append part [line])) hne
    intro heq
    have hlength := hfront.length_le
    simp only [heq, List.length_append, List.length_singleton] at hlength
    omega

theorem Gathered.not_pending (h : Gathered delimiter group) (hpre : group <+: lines) :
    ¬ Pending delimiter lines := by
  intro hpending
  exact h.not_leavesOpen (hpending group hpre h.ne_nil)

theorem Gathered.unique (h : Gathered delimiter group) (h' : Gathered delimiter group')
    (heq : group ++ rest = group' ++ rest') : group = group' ∧ rest = rest' := by
  have hpre : group <+: group' ++ rest' := ⟨rest, heq⟩
  have hgroup : group = group' := by
    apply Decidable.byContradiction
    intro hne
    -- The shorter one of two runs from the same line on leaves the longer one no chance to be the shortest.
    cases List.prefix_or_prefix_of_prefix hpre (List.prefix_append group' rest') with
    | inl hshorter => exact h.not_leavesOpen (h'.leavesOpen group hshorter h.ne_nil hne)
    | inr hshorter => exact h'.not_leavesOpen (h.leavesOpen group' hshorter h'.ne_nil (Ne.symm hne))
  subst hgroup
  exact ⟨rfl, List.append_cancel_left heq⟩

theorem pending_or_gathered (delimiter : Text) (lines : List Text) :
    Pending delimiter lines ∨ ∃ group rest, lines = group ++ rest ∧ Gathered delimiter group := by
  induction lines using List.reverseRecOn with
  | nil => exact .inl .nil
  | append_singleton part line ih =>
    rcases ih with hpending | ⟨group, rest, rfl, hgroup⟩
    . by_cases hopen : LeavesOpen delimiter (part ++ [line])
      . exact .inl (hpending.concat hopen)
      . exact .inr ⟨part ++ [line], [], by simp, hpending.gathered hopen⟩
    . exact .inr ⟨group, rest ++ [line], by simp, hgroup⟩

theorem Grouping.cons (h : Gathered delimiter group) (hsplit : split delimiter (Text.ofLines group) = .ok fields)
    (hlines : Grouping delimiter lines groups last ignored e) :
    Grouping delimiter (group ++ lines) (group :: groups) last ignored e where
  lines_eq := by simp [hlines.lines_eq]
  record := by
    intro g hg
    cases hg with
    | head => exact ⟨h, fields, hsplit⟩
    | tail _ hg => exact hlines.record g hg
  remainder := hlines.remainder

theorem grouping_exists (delimiter : Text) (lines : List Text) :
    ∃ groups last ignored e, Grouping delimiter lines groups last ignored e := by
  -- The first group takes any number of lines off, so the induction is on how many lines are left.
  induction hlength : lines.length using Nat.strongRecOn generalizing lines with
  | _ n ih =>
    subst hlength
    rcases pending_or_gathered delimiter lines with hpending | ⟨group, rest, rfl, hgroup⟩
    . by_cases hne : lines = []
      . exact ⟨[], [], [], none, by simpa using hne, by simp, .none⟩
      . exact ⟨[], lines, [], _, by simp, by simp, .pending hne hpending⟩
    . cases hsplit : split delimiter (Text.ofLines group) with
      | error e => exact ⟨[], group, rest, some e, by simp, by simp, .malformed hgroup hsplit⟩
      | ok fields =>
        have hshorter : rest.length < (group ++ rest).length := by
          have := List.length_pos_iff.mpr hgroup.ne_nil
          simp
          omega
        obtain ⟨groups, last, ignored, e, hrest⟩ := ih _ hshorter rest rfl
        exact ⟨group :: groups, last, ignored, e, .cons hgroup hsplit hrest⟩

theorem Remainder.ne_append (h : Remainder delimiter last ignored e) (hgroup : Gathered delimiter group)
    (hsplit : split delimiter (Text.ofLines group) = .ok fields) : last ++ ignored ≠ group ++ rest := by
  intro heq
  cases h with
  | none => simp [hgroup.ne_nil] at heq
  | pending _ hpending =>
    rw [List.append_nil] at heq
    exact hgroup.not_pending ⟨rest, heq.symm⟩ hpending
  | malformed hlast he =>
    obtain ⟨rfl, _⟩ := hlast.unique hgroup heq
    rw [he] at hsplit
    cases hsplit

theorem Remainder.stray_of_ignored (h : Remainder delimiter last ignored e) (hne : ignored ≠ []) :
    ∃ column, e = some (.strayAfterQuote column) := by
  cases h with
  | none => exact absurd rfl hne
  | pending => exact absurd rfl hne
  | @malformed _ _ e hlast he =>
    cases e with
    | unterminatedQuote => exact absurd he hlast.not_leavesOpen
    | strayAfterQuote column => exact ⟨column, rfl⟩

theorem Remainder.unique {last' ignored' : List Text} {e' : Option RecordError}
    (h : Remainder delimiter last ignored e) (h' : Remainder delimiter last' ignored' e')
    (heq : last ++ ignored = last' ++ ignored') : last = last' ∧ ignored = ignored' ∧ e = e' := by
  cases h with
  | none =>
    cases h' with
    | none => exact ⟨rfl, rfl, rfl⟩
    | pending hne _ => simp [hne] at heq
    | malformed hlast _ => simp [hlast.ne_nil] at heq
  | pending hne hpending =>
    cases h' with
    | none => simp [hne] at heq
    | pending => simpa using heq
    | malformed hlast _ =>
      rw [List.append_nil] at heq
      exact absurd hpending (hlast.not_pending ⟨_, heq.symm⟩)
  | malformed hlast he =>
    cases h' with
    | none => simp [hlast.ne_nil] at heq
    | pending _ hpending =>
      rw [List.append_nil] at heq
      exact absurd hpending (hlast.not_pending ⟨_, heq⟩)
    | malformed hlast' he' =>
      obtain ⟨rfl, rfl⟩ := hlast.unique hlast' heq
      rw [he, Except.error.injEq] at he'
      exact ⟨rfl, rfl, congrArg some he'⟩

theorem Grouping.unique {groups' : List (List Text)} {last' ignored' : List Text} {e' : Option RecordError}
    (h : Grouping delimiter lines groups last ignored e) (h' : Grouping delimiter lines groups' last' ignored' e') :
    groups = groups' ∧ last = last' ∧ ignored = ignored' ∧ e = e' := by
  obtain ⟨rfl, hrecord, hremainder⟩ := h
  obtain ⟨heq, hrecord', hremainder'⟩ := h'
  induction groups generalizing groups' with
  | nil =>
    cases groups' with
    | nil =>
      simp only [List.flatten_nil, List.nil_append] at heq
      exact ⟨rfl, hremainder.unique hremainder' heq⟩
    | cons group' groups' =>
      obtain ⟨hgroup', fields, hsplit⟩ := hrecord' group' (by simp)
      simp only [List.flatten_nil, List.nil_append, List.flatten_cons, List.append_assoc] at heq
      exact absurd heq (hremainder.ne_append hgroup' hsplit)
  | cons group groups ih =>
    obtain ⟨hgroup, fields, hsplit⟩ := hrecord group (by simp)
    simp only [List.flatten_cons, List.append_assoc] at heq
    cases groups' with
    | nil =>
      simp only [List.flatten_nil, List.nil_append] at heq
      exact absurd heq.symm (hremainder'.ne_append hgroup hsplit)
    | cons group' groups' =>
      simp only [List.flatten_cons, List.append_assoc] at heq
      obtain ⟨rfl, hrest⟩ := hgroup.unique (hrecord' group' (by simp)).1 heq
      obtain ⟨rfl, hremainders⟩ := ih (fun g hg => hrecord g (.tail _ hg)) (by simpa using hrest)
        (fun g hg => hrecord' g (.tail _ hg))
      exact ⟨rfl, hremainders⟩

end

end Record
end Excerpt
