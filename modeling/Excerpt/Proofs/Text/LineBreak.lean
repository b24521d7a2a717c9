import Mathlib.Data.List.Basic
import Excerpt.Text.Basic

/-!
This module contains the line breaks of a text: how lines are joined to a text and a text is taken apart into lines,
induction from one line feed to the next, and the two ways to lose a carriage return, at the end of one line and in
front of every line feed of a text.
-/

namespace Excerpt
namespace Text

def ofLines (lines : List Text) : Text := ['\n'].intercalate lines

@[simp]
theorem ofLines_singleton {line : Text} : ofLines [line] = line := by
  simp [ofLines]

theorem ofLines_append {lines more : List Text} (hlines : lines ≠ []) (hmore : more ≠ []) :
    ofLines (lines ++ more) = ofLines lines ++ '\n' :: ofLines more := by
  unfold ofLines
  induction lines with
  | nil => exact absurd rfl hlines
  | cons line lines ih =>
    cases lines with
    | nil => simp [List.intercalate_cons_of_ne_nil hmore]
    | cons next lines =>
      rw [List.cons_append, List.cons_append, List.intercalate_cons_cons, ← List.cons_append, ih (by simp),
        List.intercalate_cons_cons]
      simp

@[simp]
theorem ofLines_splitOn {s : Text} : ofLines (s.splitOn '\n') = s := List.intercalate_splitOn '\n'

@[elab_as_elim]
theorem linewise {motive : Text → Prop} (last : ∀ line, '\n' ∉ line → motive line)
    (more : ∀ line rest, '\n' ∉ line → motive rest → motive (line ++ '\n' :: rest)) (s : Text) : motive s := by
  induction hs : s.length using Nat.strongRecOn generalizing s with
  | _ n ih =>
    subst hs
    by_cases hmem : '\n' ∈ s
    . obtain ⟨line, rest, rfl, hline⟩ := List.eq_append_cons_of_mem hmem
      have hlength : rest.length < (line ++ '\n' :: rest).length := by
        simp
        omega
      exact more line rest hline (ih _ hlength rest rfl)
    . exact last s hmem

theorem length_splitOn_lineFeed (s : Text) : (s.splitOn '\n').length = s.count '\n' + 1 := by
  induction s using linewise with
  | last line hline =>
    rw [List.splitOn_eq_singleton hline, List.count_eq_zero_of_not_mem hline]
    rfl
  | more line rest hline ih =>
    rw [List.splitOn_append_cons_self_of_not_mem hline, List.length_cons, ih, List.count_append, List.count_cons_self,
      List.count_eq_zero_of_not_mem hline, Nat.zero_add]

def dropReturn (line : Text) : Text := if line.getLast? = some '\r' then line.dropLast else line

/--
The lines of a text. What stands behind the last line feed is a line only if it holds a character, and no line feed
ends it, so a carriage return at its end belongs to it.
-/
def lines (s : Text) : List Text :=
  let pieces := s.splitOn '\n'
  pieces.dropLast.map dropReturn ++ pieces.getLast?.toList.filter (· ≠ [])

def unifyBreaks : Text → Text
  | [] => []
  | '\r' :: '\n' :: s => '\n' :: unifyBreaks s
  | c :: s => c :: unifyBreaks s

section

variable {c : Char} {s t line : Text}

theorem dropReturn_of_ne (h : s.getLast? ≠ some '\r') : dropReturn s = s := by
  rw [dropReturn, if_neg h]

theorem dropReturn_append_return : dropReturn (s ++ ['\r']) = s := by
  simp [dropReturn]

theorem dropReturn_cons_cons {e : Char} : dropReturn (c :: e :: s) = c :: dropReturn (e :: s) := by
  unfold dropReturn
  rw [List.getLast?_cons_cons]
  split
  . rfl
  . rfl

theorem mem_of_mem_dropReturn (h : c ∈ dropReturn line) : c ∈ line := by
  unfold dropReturn at h
  split at h
  . exact List.dropLast_subset line h
  . exact h

theorem lines_of_not_mem (hne : line ≠ []) (h : '\n' ∉ line) : lines line = [line] := by
  simp [lines, List.splitOn_eq_singleton h, hne]

theorem lines_append_lineFeed (h : '\n' ∉ line) : lines (line ++ '\n' :: s) = dropReturn line :: lines s := by
  have hs : s.splitOn '\n' ≠ [] := List.splitOn_ne_nil '\n' s
  simp only [lines, List.splitOn_append_cons_self_of_not_mem h]
  rw [List.dropLast_cons_of_ne_nil hs, List.getLast?_cons_of_ne_nil hs, List.map_cons, List.cons_append]

@[simp]
theorem unifyBreaks_nil : unifyBreaks [] = [] := rfl

theorem unifyBreaks_return_lineFeed : unifyBreaks ('\r' :: '\n' :: s) = '\n' :: unifyBreaks s := by
  rw [unifyBreaks]

theorem unifyBreaks_cons_of_ne (hc : c ≠ '\r') : unifyBreaks (c :: s) = c :: unifyBreaks s := by
  rw [unifyBreaks]
  intro s' heq
  exact absurd heq hc

theorem unifyBreaks_cons_of_head_ne (hs : s.head? ≠ some '\n') : unifyBreaks (c :: s) = c :: unifyBreaks s := by
  rw [unifyBreaks]
  intro s' _ heq
  simp [heq] at hs

theorem unifyBreaks_append_cons (hreturn : c ≠ '\r') (hfeed : c ≠ '\n') :
    unifyBreaks (s ++ c :: t) = unifyBreaks s ++ c :: unifyBreaks t := by
  fun_induction unifyBreaks s with
  | case1 => exact unifyBreaks_cons_of_ne hreturn
  | case2 s ih => rw [List.cons_append, List.cons_append, unifyBreaks_return_lineFeed, ih, List.cons_append]
  | case3 e s hs ih =>
    by_cases he : e = '\r'
    . have hhead : (s ++ c :: t).head? ≠ some '\n' := by
        cases s with
        | nil => simpa using hfeed
        | cons e' s =>
          simp
          intro he'
          exact hs s he (by rw [he'])
      rw [List.cons_append, unifyBreaks_cons_of_head_ne hhead, ih, List.cons_append]
    . rw [List.cons_append, unifyBreaks_cons_of_ne he, ih, List.cons_append]

theorem unifyBreaks_of_not_mem (h : '\n' ∉ s) : unifyBreaks s = s := by
  induction s with
  | nil => rfl
  | cons c s ih =>
    simp only [List.mem_cons, not_or] at h
    rw [unifyBreaks_cons_of_head_ne, ih h.2]
    intro hhead
    exact h.2 (List.mem_of_head? hhead)

theorem unifyBreaks_append_lineFeed (h : '\n' ∉ line) :
    unifyBreaks (line ++ '\n' :: s) = dropReturn line ++ '\n' :: unifyBreaks s := by
  induction line with
  | nil => exact unifyBreaks_cons_of_ne (by decide)
  | cons c line ih =>
    simp only [List.mem_cons, not_or] at h
    cases line with
    | nil =>
      by_cases hc : c = '\r'
      . subst hc
        exact unifyBreaks_return_lineFeed
      . rw [dropReturn_of_ne (by simpa using hc), List.singleton_append, unifyBreaks_cons_of_ne hc,
          unifyBreaks_cons_of_ne (by decide), List.singleton_append]
    | cons e line =>
      have hhead : (e :: line ++ '\n' :: s).head? ≠ some '\n' := by
        simp only [List.mem_cons, not_or] at h
        simpa using Ne.symm h.2.1
      rw [List.cons_append, unifyBreaks_cons_of_head_ne hhead, ih h.2, dropReturn_cons_cons, List.cons_append]

@[simp]
theorem count_lineFeed_unifyBreaks : (unifyBreaks s).count '\n' = s.count '\n' := by
  fun_induction unifyBreaks s with
  | case1 => rfl
  | case2 s ih => simp [ih]
  | case3 c s hs ih => simp [List.count_cons, ih]

theorem mem_unifyBreaks (hc : c ≠ '\r') : c ∈ unifyBreaks s ↔ c ∈ s := by
  fun_induction unifyBreaks s with
  | case1 => rfl
  | case2 s ih => simp [ih, hc]
  | case3 e s hs ih => simp [ih]

theorem unifyBreaks_eq_self (h : ∀ before after, s ≠ before ++ '\r' :: '\n' :: after) : unifyBreaks s = s := by
  fun_induction unifyBreaks s with
  | case1 => rfl
  | case2 s ih => exact absurd rfl (h [] s)
  | case3 c s hs ih =>
    rw [ih]
    intro before after heq
    exact h (c :: before) after (by rw [heq, List.cons_append])

end

end Text
end Excerpt
