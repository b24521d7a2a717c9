import Mathlib.Data.List.Intervals
import Excerpt.Extraction
import Excerpt.Proofs.Utf8.Seam

/-!
This module contains what byte selections make of characters that they cut. A span of an encoded text gives one
replacement for each byte of a character that begins in front of the span, then the characters that lie in it as a
whole, and one more replacement for a character that begins in the span and ends behind it. Two selections can be
decoded one by one unless the second goes on inside a character where the first ends.
-/

namespace Excerpt

structure PlacedChar where
  char : Char
  bytes : Span
  deriving DecidableEq, Repr

def placedFrom (start : Nat) : Text → List PlacedChar
  | [] => []
  | c :: s =>
    let stop := start + (String.utf8EncodeChar c).length
    ⟨c, ⟨start, stop⟩⟩ :: placedFrom stop s

namespace Span

/--
The positions in a span at which a byte of a character stands that begins in front of the span.
-/
def orphans (span : Span) (chars : List PlacedChar) : List Nat :=
  (List.Ico span.start span.stop).filter fun i =>
    ∃ p ∈ chars, p.bytes.start < span.start ∧ p.bytes.start ≤ i ∧ i < p.bytes.stop

def wholeChars (span : Span) (chars : List PlacedChar) : Text :=
  (chars.filter fun p => span.start ≤ p.bytes.start ∧ p.bytes.stop ≤ span.stop).map PlacedChar.char

def CutsAtStop (span : Span) (chars : List PlacedChar) : Prop :=
  ∃ p ∈ chars, (span.start ≤ p.bytes.start ∧ p.bytes.start < span.stop) ∧ span.stop < p.bytes.stop

instance {span : Span} {chars : List PlacedChar} : Decidable (span.CutsAtStop chars) :=
  inferInstanceAs (Decidable (∃ p ∈ chars, _))

end Span

section

variable {n : Nat} {s : Text} {c : Char} {p : PlacedChar} {span : Span} {chars : List PlacedChar}

theorem bounds_of_mem_placedFrom (h : p ∈ placedFrom n s) : n ≤ p.bytes.start ∧ p.bytes.start < p.bytes.stop := by
  induction s generalizing n with
  | nil => cases h
  | cons c s ih =>
    have hlength : 0 < (String.utf8EncodeChar c).length := List.length_pos_of_ne_nil String.utf8EncodeChar_ne_nil
    rcases List.mem_cons.mp h with rfl | h
    . exact ⟨Nat.le_refl _, Nat.lt_add_of_pos_right hlength⟩
    . have hbounds := ih h
      omega

namespace Span

theorem orphans_eq_nil (h : span.start ≤ n) : span.orphans (placedFrom n s) = [] := by
  apply List.filter_eq_nil_iff.mpr
  intro i _
  simp only [decide_eq_true_eq, not_exists, not_and]
  intro p hp
  have hbounds := bounds_of_mem_placedFrom hp
  omega

theorem wholeChars_eq_nil (h : span.stop ≤ n) : span.wholeChars (placedFrom n s) = [] := by
  apply List.map_eq_nil_iff.mpr
  apply List.filter_eq_nil_iff.mpr
  intro p hp
  have hbounds := bounds_of_mem_placedFrom hp
  simp only [decide_eq_true_eq]
  omega

theorem not_cutsAtStop (h : span.stop ≤ n) : ¬ span.CutsAtStop (placedFrom n s) := by
  rintro ⟨p, hp, hfirst, _⟩
  have hbounds := bounds_of_mem_placedFrom hp
  omega

theorem wholeChars_cons_of_le (hstart : span.start ≤ p.bytes.start) (hstop : p.bytes.stop ≤ span.stop) :
    span.wholeChars (p :: chars) = p.char :: span.wholeChars chars := by
  simp [wholeChars, hstart, hstop]

theorem wholeChars_cons_of_not (h : ¬ (span.start ≤ p.bytes.start ∧ p.bytes.stop ≤ span.stop)) :
    span.wholeChars (p :: chars) = span.wholeChars chars := by
  rw [wholeChars, List.filter_cons_of_neg (by simpa using h)]
  rfl

theorem cutsAtStop_cons_iff (h : p.bytes.start < span.start ∨ p.bytes.stop ≤ span.stop) :
    span.CutsAtStop (p :: chars) ↔ span.CutsAtStop chars := by
  constructor
  . rintro ⟨q, hq, hfirst, hlast⟩
    rcases List.mem_cons.mp hq with rfl | hq
    . omega
    . exact ⟨q, hq, hfirst, hlast⟩
  . rintro ⟨q, hq, hcut⟩
    exact ⟨q, List.mem_cons_of_mem p hq, hcut⟩

theorem orphans_cons_of_stop_le (h : p.bytes.stop ≤ span.start) : span.orphans (p :: chars) = span.orphans chars := by
  apply List.filter_congr
  intro i hi
  have hstart := (List.Ico.mem.mp hi).1
  simp only [decide_eq_decide, List.mem_cons, exists_eq_or_imp, or_iff_right_iff_imp]
  omega

theorem length_orphans_cons (hstart : p.bytes.start < span.start) (hstop : span.start ≤ p.bytes.stop) :
    (span.orphans (p :: placedFrom p.bytes.stop s)).length = min span.stop p.bytes.stop - span.start := by
  have horphans : span.orphans (p :: placedFrom p.bytes.stop s)
      = (List.Ico span.start span.stop).filter fun i => i < p.bytes.stop := by
    apply List.filter_congr
    intro i hi
    have hi := (List.Ico.mem.mp hi).1
    simp only [decide_eq_decide, List.mem_cons, exists_eq_or_imp]
    constructor
    . rintro (h | ⟨q, hq, h⟩)
      . exact h.2.2
      . -- The characters behind the first one do not begin in front of the span.
        have hbounds := bounds_of_mem_placedFrom hq
        omega
    . intro h
      exact .inl ⟨hstart, by omega, h⟩
  rw [horphans, List.Ico.filter_lt, List.Ico.length]

end Span

/--
Where a span begins between two characters, or in front of them all, it gives whole characters, and then at most one
that it cuts.
-/
theorem decode_take_encode (hstart : span.start ≤ n) :
    Utf8.decode ((Utf8.encode s).take (span.stop - n))
      = span.wholeChars (placedFrom n s)
        ++ if span.CutsAtStop (placedFrom n s) then [Utf8.replacement] else [] := by
  induction s generalizing n with
  | nil => simp [placedFrom, Span.wholeChars, Span.CutsAtStop]
  | cons c s ih =>
    by_cases hfirst : n < span.stop
    . rw [Utf8.encode_cons, placedFrom]
      generalize hstop : n + (String.utf8EncodeChar c).length = stop
      by_cases hwhole : stop ≤ span.stop
      . have htake : span.stop - n = (String.utf8EncodeChar c).length + (span.stop - stop) := by omega
        rw [htake, List.take_length_add_append, Utf8.decode_utf8EncodeChar_append, ih (by omega),
          Span.wholeChars_cons_of_le hstart hwhole, List.cons_append]
        simp only [Span.cutsAtStop_cons_iff (p := ⟨c, ⟨n, stop⟩⟩) (.inr hwhole)]
      . have hcut : span.CutsAtStop (⟨c, ⟨n, stop⟩⟩ :: placedFrom stop s) :=
          ⟨_, List.mem_cons_self, ⟨hstart, hfirst⟩, Nat.lt_of_not_le hwhole⟩
        rw [if_pos hcut, Span.wholeChars_cons_of_not fun h => hwhole h.2, Span.wholeChars_eq_nil (by omega),
          List.take_append_of_le_length (by omega)]
        apply Utf8.decode_take_utf8EncodeChar
        . omega
        . omega
    . have hstop : span.stop ≤ n := Nat.le_of_not_lt hfirst
      rw [Nat.sub_eq_zero_of_le hstop, List.take_zero, Span.wholeChars_eq_nil hstop, if_neg (Span.not_cutsAtStop hstop)]
      rfl

theorem decode_extract_encode (n : Nat) (s : Text) (span : Span) :
    Utf8.decode (((Utf8.encode s).drop (span.start - n)).take (span.stop - max span.start n))
      = List.replicate (span.orphans (placedFrom n s)).length Utf8.replacement
        ++ span.wholeChars (placedFrom n s)
        ++ if span.CutsAtStop (placedFrom n s) then [Utf8.replacement] else [] := by
  induction s generalizing n with
  | nil => simp [placedFrom, Span.wholeChars, Span.CutsAtStop, Span.orphans]
  | cons c s ih =>
    by_cases hstart : span.start ≤ n
    . rw [Nat.sub_eq_zero_of_le hstart, Nat.max_eq_right hstart, List.drop_zero, decode_take_encode hstart,
        Span.orphans_eq_nil hstart]
      rfl
    . rw [Utf8.encode_cons, placedFrom]
      generalize hstop : n + (String.utf8EncodeChar c).length = stop
      have hwhole : ¬ (span.start ≤ n ∧ stop ≤ span.stop) := fun h => hstart h.1
      rw [Span.wholeChars_cons_of_not hwhole]
      simp only [Span.cutsAtStop_cons_iff (p := ⟨c, ⟨n, stop⟩⟩) (.inl (Nat.lt_of_not_le hstart))]
      by_cases hbefore : stop ≤ span.start
      . have hdrop : span.start - n = (String.utf8EncodeChar c).length + (span.start - stop) := by omega
        have hmax : max span.start n = max span.start stop := by omega
        rw [hdrop, List.drop_length_add_append, hmax, ih stop, Span.orphans_cons_of_stop_le hbefore]
      . have hcount : min (span.stop - span.start) ((String.utf8EncodeChar c).length - (span.start - n))
            = min span.stop stop - span.start := by
          omega
        have hrest : span.stop - span.start - ((String.utf8EncodeChar c).length - (span.start - n))
            = span.stop - stop := by
          omega
        have horphans : (span.orphans (⟨c, ⟨n, stop⟩⟩ :: placedFrom stop s)).length
            = min span.stop stop - span.start :=
          Span.length_orphans_cons (Nat.lt_of_not_le hstart) (Nat.le_of_not_le hbefore)
        rw [Nat.max_eq_left (by omega), List.drop_append_of_le_length (by omega), List.take_append, List.length_drop,
          hrest, Utf8.decode_tail_append (by omega), hcount, horphans, decode_take_encode (by omega),
          List.append_assoc]

end

theorem selectBytes_encode_span (s : Text) (start stop : Nat) :
    let chars := placedFrom 0 s
    let clipped : Span := ⟨start, min stop (Utf8.encode s).length⟩
    selectBytes [⟨start, stop⟩] (Utf8.encode s)
      = List.replicate (clipped.orphans chars).length Utf8.replacement
        ++ clipped.wholeChars chars
        ++ if clipped.CutsAtStop chars then [Utf8.replacement] else [] := by
  intro chars clipped
  have hselect : Selection.select [⟨start, stop⟩] (Utf8.encode s)
      = ((Utf8.encode s).drop start).take (min stop (Utf8.encode s).length - start) := by
    simp only [Selection.select, List.flatMap_cons, List.flatMap_nil, List.append_nil, List.extract_eq_take_drop]
    rw [List.take_eq_take_iff, List.length_drop]
    omega
  have hdecode := decode_extract_encode 0 s clipped
  rw [Nat.sub_zero, Nat.max_eq_left (Nat.zero_le _)] at hdecode
  rw [selectBytes, hselect]
  exact hdecode

example : selectBytes [⟨2, 4⟩] (Utf8.encode ['a', Char.ofNat 0x1F600]) = [Utf8.replacement, Utf8.replacement] := by
  decide

theorem selectBytes_append {data : Bytes} {P Q : Selection}
    (h : Q.select data = []
      ∨ (∃ byte, (Q.select data).head? = some byte ∧ ¬ Utf8.IsContinuation byte)
      ∨ ∃ s, P.select data = Utf8.encode s) :
    selectBytes (P ++ Q) data = selectBytes P data ++ selectBytes Q data := by
  simp only [selectBytes, Selection.select_append]
  rcases h with h | ⟨byte, hbyte, hfirst⟩ | ⟨s, h⟩
  . rw [h, Utf8.decode_nil, List.append_nil, List.append_nil]
  . apply Utf8.decode_append_of_head?
    intro byte' hbyte'
    rw [hbyte, Option.some.injEq] at hbyte'
    rw [← hbyte']
    exact hfirst
  . apply Utf8.decode_append
    rw [h, Utf8.run_encode]

theorem selectBytes_append_euro :
    let data : Bytes := [0xE2, 0x82, 0xAC, 0x61]
    let P : Selection := [⟨1, 3⟩, ⟨0, 2⟩]
    let Q : Selection := [⟨3, 4⟩]
    (∃ byte, (Q.select data).head? = some byte ∧ ¬ Utf8.IsContinuation byte)
      ∧ selectBytes (P ++ Q) data = selectBytes P data ++ selectBytes Q data := by
  intro data P Q
  have hfirst : ∃ byte, (Q.select data).head? = some byte ∧ ¬ Utf8.IsContinuation byte :=
    ⟨0x61, by decide, by decide⟩
  exact ⟨hfirst, selectBytes_append (.inr (.inl hfirst))⟩

/-- The second piece may complete the character with which the first one ends. -/
example :
    selectBytes ([⟨0, 1⟩] ++ [⟨1, 2⟩]) [0xC3, 0xA9]
      ≠ selectBytes [⟨0, 1⟩] [0xC3, 0xA9] ++ selectBytes [⟨1, 2⟩] [0xC3, 0xA9] := by
  decide

end Excerpt
