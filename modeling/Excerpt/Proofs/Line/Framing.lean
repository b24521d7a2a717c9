import Mathlib.Data.List.Basic
import Excerpt.Line

/-!
This module contains how data is framed in lines: how many there are, what stands in them, and what is left of a line
without its terminator.
-/

namespace Excerpt
namespace Line

inductive HasContent : Bytes → Bytes → Prop
  | returnLineFeed {content : Bytes} : HasContent (content ++ [0x0D, 0x0A]) content
  | lineFeed {content : Bytes} (h : content.getLast? ≠ some 0x0D) : HasContent (content ++ [0x0A]) content
  | unterminated {content : Bytes} (h : content.getLast? ≠ some 0x0A) : HasContent content content

@[elab_as_elim]
theorem linewise {motive : Bytes → Prop} (nil : motive [])
    (last : ∀ line, line ≠ [] → 0x0A ∉ line → motive line)
    (more : ∀ line rest, 0x0A ∉ line → motive rest → motive (line ++ 0x0A :: rest)) (data : Bytes) : motive data := by
  induction hdata : data.length using Nat.strongRecOn generalizing data with
  | _ n ih =>
    subst hdata
    by_cases hmem : 0x0A ∈ data
    . obtain ⟨line, rest, rfl, hline⟩ := List.eq_append_cons_of_mem hmem
      have hlength : rest.length < (line ++ 0x0A :: rest).length := by
        simp
        omega
      exact more line rest hline (ih _ hlength rest rfl)
    . by_cases hne : data = []
      . exact hne ▸ nil
      . exact last data hne hmem

section

variable {data line content : Bytes}

theorem split_of_not_mem (hne : data ≠ []) (h : 0x0A ∉ data) : split data = [data] := by
  induction data with
  | nil => exact absurd rfl hne
  | cons byte data ih =>
    simp only [List.mem_cons, not_or] at h
    cases data with
    | nil => simp [split, Ne.symm h.1]
    | cons next data => exact split_cons_of_ne (Ne.symm h.1) (ih (List.cons_ne_nil _ _) h.2)

theorem length_split (data : Bytes) :
    (split data).length = data.count 0x0A + if data = [] ∨ data.getLast? = some 0x0A then 0 else 1 := by
  induction data using linewise with
  | nil => rfl
  | last line hne hline =>
    have hlast : line.getLast? ≠ some 0x0A := fun h => hline (List.mem_of_getLast? h)
    rw [split_of_not_mem hne hline, List.count_eq_zero_of_not_mem hline, if_neg (by simp [hne, hlast])]
    rfl
  | more line rest hline ih =>
    -- The data ends as the rest does, and with the line feed if there is no rest.
    have hend : (line ++ 0x0A :: rest = [] ∨ (line ++ 0x0A :: rest).getLast? = some 0x0A)
        ↔ (rest = [] ∨ rest.getLast? = some 0x0A) := by
      cases rest with
      | nil => simp
      | cons byte rest => simp [List.getLast?_append]
    rw [split_append_lineFeed hline, List.length_cons, ih, List.count_append, List.count_eq_zero_of_not_mem hline,
      List.count_cons_self, if_congr hend rfl rfl]
    omega

theorem chomp_of_getLast?_ne (h : data.getLast? ≠ some 0x0A) : chomp data = data := by
  fun_induction chomp data with
  | case1 => rfl
  | case2 => simp at h
  | case3 => simp at h
  | case4 byte data _ _ ih =>
    cases data with
    | nil => rfl
    | cons next data => rw [ih (by simpa using h)]

theorem hasContent_chomp (line : Bytes) : HasContent line (chomp line) := by
  by_cases hfeed : line.getLast? = some 0x0A
  . obtain ⟨body, rfl⟩ := List.getLast?_eq_some_iff.mp hfeed
    by_cases hreturn : body.getLast? = some 0x0D
    . obtain ⟨content, rfl⟩ := List.getLast?_eq_some_iff.mp hreturn
      rw [List.append_assoc, List.singleton_append, chomp_append_return_lineFeed]
      exact .returnLineFeed
    . rw [chomp_append_lineFeed hreturn]
      exact .lineFeed hreturn
  . rw [chomp_of_getLast?_ne hfeed]
    exact .unterminated hfeed

theorem hasContent_iff : HasContent line content ↔ chomp line = content := by
  constructor
  . intro h
    cases h with
    | returnLineFeed => exact chomp_append_return_lineFeed
    | lineFeed h => exact chomp_append_lineFeed h
    | unterminated h => exact chomp_of_getLast?_ne h
  . rintro rfl
    exact hasContent_chomp line

theorem chomp_append_lineFeed_subset (body : Bytes) : chomp (body ++ [0x0A]) ⊆ body := by
  by_cases hreturn : body.getLast? = some 0x0D
  . obtain ⟨content, rfl⟩ := List.getLast?_eq_some_iff.mp hreturn
    rw [List.append_assoc, List.singleton_append, chomp_append_return_lineFeed]
    exact List.subset_append_left _ _
  . rw [chomp_append_lineFeed hreturn]
    exact List.Subset.refl _

theorem lineFeed_not_mem_chomp (hline : line ∈ split data) : 0x0A ∉ chomp line := by
  induction data using linewise with
  | nil => cases hline
  | last line' hne hmem =>
    rw [split_of_not_mem hne hmem, List.mem_singleton] at hline
    rw [hline, chomp_of_getLast?_ne fun hlast => hmem (List.mem_of_getLast? hlast)]
    exact hmem
  | more body rest hmem ih =>
    rw [split_append_lineFeed hmem, List.mem_cons] at hline
    rcases hline with rfl | hline
    . intro h
      exact hmem (chomp_append_lineFeed_subset body h)
    . exact ih hline

end

end Line
end Excerpt
