import Mathlib.Algebra.Ring.Nat
import Mathlib.Logic.Relation
import Excerpt.Proofs.Record.Cursor

/-!
This module contains what holds of every scan of a text, whatever the delimiter: each round of its two loops leads
further on in the text and never past its end, so the scan ends, and with the result of `split`. The fields have no
more characters than the text, and a stray character stands in it.
-/

namespace Excerpt

theorem Text.indexFrom_bounds {pattern s : Text} {start i : Nat} (h : indexFrom pattern s start = some i) :
    start ≤ i ∧ i + pattern.length ≤ s.length := by
  have hmem := List.mem_of_find?_eq_some h
  rw [List.mem_range'_1] at hmem
  have hpre := List.find?_some h
  have hlength := (List.isPrefixOf_iff_prefix.mp hpre).length_le
  rw [List.length_drop] at hlength
  omega

theorem Text.length_extract {s : Text} {start stop : Nat} (h : stop ≤ s.length) :
    (s.extract start stop).length = stop - start := by
  rw [List.extract_eq_take_drop, List.length_take, List.length_drop]
  omega

namespace Record

/--
How far a scan must have come to be in a loop: past one quote inside of a quoted field, past two behind it. A closing
quote is not followed by a quote.
-/
def Stage.Holds (text : Text) (position : Nat) : Stage → Prop
  | .field => True
  | .quoted _ => 1 ≤ position
  | .closed _ => 2 ≤ position ∧ text[position]? ≠ some '"'

def Stage.value : Stage → Text
  | .field => []
  | .quoted value => value
  | .closed value => value

/--
A cursor stands in the text, behind at least one character for every field, and has kept no more than it has passed.
-/
structure Cursor.Fits (text : Text) (c : Cursor) : Prop where
  position_le : c.position ≤ text.length
  length_le : c.fields.length ≤ c.position
  size_le : (c.fields.map List.length).sum + c.stage.value.length ≤ c.position
  stage : c.stage.Holds text c.position

def Bounded (text : Text) : Except RecordError (List Text) → Prop
  | .ok fields =>
    1 ≤ fields.length ∧ fields.length ≤ text.length + 1 ∧ (fields.map List.length).sum ≤ text.length
  | .error .unterminatedQuote => True
  | .error (.strayAfterQuote column) =>
    3 ≤ column ∧ column ≤ text.length ∧ ∃ c, text[column - 1]? = some c ∧ c ≠ '"'

def Move.Advances (text : Text) (start : Nat) : Move → Prop
  | .goOn c => start < c.position ∧ c.Fits text
  | .stop result => Bounded text result

namespace Cursor

variable {text value : Text} {fields : List Text} {start position : Nat} {c c' : Cursor}

theorem start_fits (text : Text) : Fits text {} where
  position_le := Nat.zero_le _
  length_le := Nat.le_refl _
  size_le := Nat.le_refl _
  stage := trivial

theorem advances_goOn {stage : Stage} (hstart : start < position) (hposition : position ≤ text.length)
    (hlength : fields.length ≤ position) (hsize : (fields.map List.length).sum + stage.value.length ≤ position)
    (hstage : stage.Holds text position) : (Move.goOn ⟨position, fields, stage⟩).Advances text start :=
  ⟨hstart, hposition, hlength, hsize, hstage⟩

theorem advances_leaveField (hstart : start ≤ position) (hposition : position ≤ text.length)
    (hlength : fields.length ≤ position) (hsize : (fields.map List.length).sum + value.length ≤ position) :
    (leaveField text position (fields ++ [value])).Advances text start := by
  have hlength' : (fields ++ [value]).length = fields.length + 1 := by simp
  have hsize' : ((fields ++ [value]).map List.length).sum = (fields.map List.length).sum + value.length := by simp
  unfold leaveField
  split
  . exact ⟨by omega, by omega, by omega⟩
  . split
    . have hlast : ((fields ++ [value]) ++ [[]]).length = fields.length + 2 := by simp
      have hempty : (((fields ++ [value]) ++ [[]]).map List.length).sum
          = ((fields ++ [value]).map List.length).sum := by
        simp
      exact ⟨by omega, by omega, by omega⟩
    . refine advances_goOn (by omega) (by omega) (by omega) ?_ trivial
      simp only [Stage.value, List.length_nil]
      omega

theorem Fits.advances_field (delimiter : Text) (h : Fits text ⟨position, fields, .field⟩) :
    (move delimiter text ⟨position, fields, .field⟩).Advances text position := by
  obtain ⟨hposition, hlength, hsize, _⟩ := h
  simp only [Stage.value, List.length_nil, Nat.add_zero] at hposition hlength hsize
  simp only [move]
  split
  . next hquote =>
    obtain ⟨hlt, _⟩ := List.getElem?_eq_some_iff.mp hquote
    refine advances_goOn (by omega) hlt (by omega) ?_ (Nat.le_add_left 1 position)
    simp only [Stage.value, List.length_nil]
    omega
  . generalize hstop : (Text.indexFrom delimiter text position).getD text.length = stop
    have hbounds : position ≤ stop ∧ stop ≤ text.length := by
      cases hfind : Text.indexFrom delimiter text position with
      | none =>
        rw [hfind, Option.getD_none] at hstop
        omega
      | some i =>
        have := Text.indexFrom_bounds hfind
        rw [hfind, Option.getD_some] at hstop
        omega
    have hpart : (text.extract position stop).length = stop - position := Text.length_extract hbounds.2
    exact advances_leaveField hbounds.1 hbounds.2 (by omega) (by omega)

theorem Fits.advances_quoted (delimiter : Text) (h : Fits text ⟨position, fields, .quoted value⟩) :
    (move delimiter text ⟨position, fields, .quoted value⟩).Advances text position := by
  obtain ⟨hposition, hlength, hsize, hopen⟩ := h
  simp only [Stage.value, Stage.Holds] at hposition hlength hsize hopen
  simp only [move]
  split
  . trivial
  . next close hfind =>
    have hbounds := Text.indexFrom_bounds hfind
    simp only [List.length_singleton] at hbounds
    have hpart : (text.extract position close).length = close - position := Text.length_extract (by omega)
    split
    . next hpair =>
      obtain ⟨hlt, _⟩ := List.getElem?_eq_some_iff.mp hpair
      refine advances_goOn (by omega) hlt (by omega) ?_ (Nat.le_add_left 1 (close + 1))
      simp only [Stage.value, List.length_append, List.length_singleton]
      omega
    . next hquote =>
      refine advances_goOn (by omega) hbounds.2 (by omega) ?_ ⟨by omega, hquote⟩
      simp only [Stage.value, List.length_append]
      omega

theorem Fits.advances_closed (delimiter : Text) (h : Fits text ⟨position, fields, .closed value⟩) :
    (move delimiter text ⟨position, fields, .closed value⟩).Advances text position := by
  obtain ⟨hposition, hlength, hsize, hclosed, hquote⟩ := h
  simp only [Stage.value] at hposition hlength hsize hclosed hquote
  have hleave : (leaveField text position (fields ++ [value])).Advances text position :=
    advances_leaveField (Nat.le_refl _) hposition hlength hsize
  simp only [move]
  split
  . exact hleave
  . next c hc =>
    split
    . exact hleave
    . obtain ⟨hlt, _⟩ := List.getElem?_eq_some_iff.mp hc
      rw [hc] at hquote
      exact ⟨by omega, by omega, c, hc, by simpa using hquote⟩

theorem Fits.advances (delimiter : Text) (h : c.Fits text) : (c.move delimiter text).Advances text c.position := by
  obtain ⟨position, fields, stage⟩ := c
  cases stage with
  | field => exact h.advances_field delimiter
  | quoted value => exact h.advances_quoted delimiter
  | closed value => exact h.advances_closed delimiter

/--
A scan goes on from one cursor to the next. Inside of a quoted field a step is a round of the loop over the quotes. A
round of the loop over the fields is one step or several, from the start of a field to the start of the next one.
-/
def Steps (delimiter text : Text) (c c' : Cursor) : Prop := c.move delimiter text = .goOn c'

theorem Fits.of_steps {delimiter : Text} (h : c.Fits text) (hstep : Steps delimiter text c c') :
    c.position < c'.position ∧ c'.Fits text ∧ c'.outcome delimiter text = c.outcome delimiter text := by
  have hadvances := h.advances delimiter
  have houtcome := outcome_move delimiter h.position_le
  rw [hstep] at hadvances houtcome
  exact ⟨hadvances.1, hadvances.2, houtcome⟩

theorem Fits.of_reaches {delimiter : Text} (h : c.Fits text)
    (hreaches : Relation.ReflTransGen (Steps delimiter text) c c') :
    c'.Fits text ∧ c'.outcome delimiter text = c.outcome delimiter text := by
  induction hreaches with
  | refl => exact ⟨h, rfl⟩
  | tail _ hstep ih =>
    obtain ⟨_, hfits, houtcome⟩ := ih.1.of_steps hstep
    exact ⟨hfits, houtcome.trans ih.2⟩

theorem Fits.position_lt {delimiter : Text} (h : c.Fits text) (hsteps : Relation.TransGen (Steps delimiter text) c c') :
    c.position < c'.position := by
  induction hsteps with
  | single hstep => exact (h.of_steps hstep).1
  | tail hbefore hstep ih =>
    have hfits := (h.of_reaches hbefore.to_reflTransGen).1
    exact Nat.lt_trans ih (hfits.of_steps hstep).1

theorem Fits.exists_last (delimiter : Text) (h : c.Fits text) :
    ∃ last, Relation.ReflTransGen (Steps delimiter text) c last
      ∧ last.move delimiter text = .stop (c.outcome delimiter text)
      ∧ Bounded text (c.outcome delimiter text) := by
  -- What is left of the text gets shorter with every move.
  induction hleft : text.length - c.position using Nat.strongRecOn generalizing c with
  | _ n ih =>
    subst hleft
    have hadvances := h.advances delimiter
    have houtcome := outcome_move delimiter h.position_le
    cases hmove : c.move delimiter text with
    | stop result =>
      rw [hmove] at hadvances houtcome
      refine ⟨c, .refl, ?_, ?_⟩
      . rw [hmove, ← houtcome]
        rfl
      . rw [← houtcome]
        exact hadvances
    | goOn c' =>
      obtain ⟨hlt, hfits, houtcome⟩ := h.of_steps hmove
      have hposition := hfits.position_le
      obtain ⟨last, hreaches, hlast, hbounded⟩ := ih _ (by omega) hfits rfl
      rw [houtcome] at hlast hbounded
      exact ⟨last, .head hmove hreaches, hlast, hbounded⟩

end Cursor

theorem split_progress (delimiter text : Text) :
    (∀ c, Relation.ReflTransGen (Cursor.Steps delimiter text) {} c →
        c.position ≤ text.length
          ∧ (∀ c', Relation.TransGen (Cursor.Steps delimiter text) c c' →
              c.position < c'.position ∧ c'.position ≤ text.length)
          ∧ ∃ last, Relation.ReflTransGen (Cursor.Steps delimiter text) c last
              ∧ last.move delimiter text = .stop (split delimiter text))
      ∧ (∀ fields, split delimiter text = .ok fields →
          1 ≤ fields.length
            ∧ fields.length ≤ text.length + 1
            ∧ (fields.map List.length).sum ≤ text.length)
      ∧ ∀ column, split delimiter text = .error (.strayAfterQuote column) →
          3 ≤ column
            ∧ column ≤ text.length
            ∧ ∃ c, text[column - 1]? = some c ∧ c ≠ '"' := by
  obtain ⟨_, _, _, hbounded⟩ := (Cursor.start_fits text).exists_last delimiter
  rw [Cursor.outcome_start] at hbounded
  refine ⟨?_, ?_, ?_⟩
  . intro c hreaches
    obtain ⟨hfits, houtcome⟩ := (Cursor.start_fits text).of_reaches hreaches
    refine ⟨hfits.position_le, ?_, ?_⟩
    . intro c' hsteps
      exact ⟨hfits.position_lt hsteps, (hfits.of_reaches hsteps.to_reflTransGen).1.position_le⟩
    . obtain ⟨last, hlast, hmove, _⟩ := hfits.exists_last delimiter
      rw [houtcome, Cursor.outcome_start] at hmove
      exact ⟨last, hlast, hmove⟩
  . intro fields hsplit
    rw [hsplit] at hbounded
    exact hbounded
  . intro column hsplit
    rw [hsplit] at hbounded
    exact hbounded

-- Both bounds are met, by delimiters that no configuration lets pass.
example : split [] "ab".toList = .ok [[], [], []] := by cbv

example : split ['"'] "\"\"x".toList = .error (.strayAfterQuote 3) := by cbv

end Record
end Excerpt
