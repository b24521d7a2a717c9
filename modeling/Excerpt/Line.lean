import Excerpt.Utf8

/-!
This module contains the division of raw data into lines. A line ends at a line feed byte and nowhere else, and it
keeps that byte until its terminator is dropped; the last line may lack one.
-/

namespace Excerpt.Line

def split : Bytes → List Bytes
  | [] => []
  | byte :: data =>
    if byte = 0x0A then
      [byte] :: split data
    else
      match split data with
      | [] => [[byte]]
      | line :: lines => (byte :: line) :: lines

theorem split_cons_of_ne {byte : UInt8} {data line : Bytes} {lines : List Bytes} (hb : byte ≠ 0x0A)
    (h : split data = line :: lines) : split (byte :: data) = (byte :: line) :: lines := by
  rw [split, if_neg hb, h]

theorem split_cons_lineFeed {data : Bytes} : split (0x0A :: data) = [0x0A] :: split data := by
  rw [split, if_pos rfl]

@[simp]
theorem flatten_split (data : Bytes) : (split data).flatten = data := by
  induction data with
  | nil => rfl
  | cons byte data ih =>
    unfold split
    split
    . simp [ih]
    . split <;> simp_all

theorem split_append {data more : Bytes} (h : ∀ byte ∈ data.getLast?, byte = 0x0A) :
    split (data ++ more) = split data ++ split more := by
  induction data with
  | nil => rfl
  | cons byte data ih =>
    cases data with
    | nil => simp_all [split]
    | cons next data =>
      have ih := ih (by simpa using h)
      by_cases hb : byte = 0x0A
      . subst hb
        simp only [List.cons_append, split_cons_lineFeed]
        simp only [List.cons_append] at ih
        rw [ih]
      . cases hs : split (next :: data) with
        | nil =>
          have := congrArg List.flatten hs
          simp at this
        | cons line lines =>
          rw [split_cons_of_ne hb hs, List.cons_append, split_cons_of_ne hb (by rw [ih, hs]; rfl)]
          rfl

theorem split_append_lineFeed {data more : Bytes} (h : 0x0A ∉ data) :
    split (data ++ 0x0A :: more) = (data ++ [0x0A]) :: split more := by
  induction data with
  | nil => exact split_cons_lineFeed
  | cons byte data ih =>
    simp only [List.mem_cons, not_or] at h
    rw [List.cons_append, split_cons_of_ne (Ne.symm h.1) (ih h.2)]
    rfl

theorem exists_of_split_eq_append {data : Bytes} {front back : List Bytes} (h : split data = front ++ back) :
    ∃ read rest, data = read ++ rest ∧ split read = front ∧ split rest = back := by
  induction data generalizing front with
  | nil =>
    obtain ⟨rfl, rfl⟩ := List.append_eq_nil_iff.mp h.symm
    exact ⟨[], [], rfl, rfl, rfl⟩
  | cons byte data ih =>
    cases front with
    | nil => exact ⟨[], byte :: data, rfl, rfl, h⟩
    | cons line front =>
      by_cases hb : byte = 0x0A
      . subst hb
        rw [split_cons_lineFeed, List.cons_append, List.cons.injEq] at h
        obtain ⟨read, rest, rfl, hread, hrest⟩ := ih h.2
        exact ⟨0x0A :: read, rest, rfl, by rw [split_cons_lineFeed, hread, h.1], hrest⟩
      . cases hs : split data with
        | nil =>
          have hdata := congrArg List.flatten hs
          rw [flatten_split, List.flatten_nil] at hdata
          subst hdata
          rw [split, if_neg hb, split, List.cons_append, List.cons.injEq] at h
          obtain ⟨rfl, h⟩ := h
          obtain ⟨rfl, rfl⟩ := List.append_eq_nil_iff.mp h.symm
          exact ⟨[byte], [], rfl, by simp [split, hb], rfl⟩
        | cons line' lines =>
          rw [split_cons_of_ne hb hs, List.cons_append, List.cons.injEq] at h
          obtain ⟨rfl, rfl⟩ := h
          -- The byte belongs to the first line of what follows it.
          have hdata : split data = (line' :: front) ++ back := hs
          obtain ⟨read, rest, rfl, hread, hrest⟩ := ih hdata
          exact ⟨byte :: read, rest, rfl, split_cons_of_ne hb hread, hrest⟩

/--
Drops one terminator from the end of a line: a carriage return and a line feed, or a line feed.
-/
def chomp : Bytes → Bytes
  | [] => []
  | [0x0D, 0x0A] => []
  | [0x0A] => []
  | byte :: line => byte :: chomp line

theorem chomp_append_lineFeed {data : Bytes} (h : data.getLast? ≠ some 0x0D) : chomp (data ++ [0x0A]) = data := by
  fun_induction chomp data with
  | case1 => rfl
  | case2 => rfl
  | case3 => rfl
  | case4 byte data hcrlf hlf ih =>
    cases data with
    | nil =>
      have hbyte : byte ≠ 0x0D := by simpa using h
      simp [chomp, hbyte]
    | cons next data =>
      have ih := ih (by simpa using h)
      rw [List.cons_append, chomp, ih]
      . simp
      . simp

theorem chomp_append_return_lineFeed {data : Bytes} : chomp (data ++ [0x0D, 0x0A]) = data := by
  induction data with
  | nil => rfl
  | cons byte data ih =>
    rw [List.cons_append, chomp, ih]
    . intro _ heq
      have := congrArg List.length heq
      simp at this
    . simp

def texts (data : Bytes) : List Text :=
  (split data).map fun line => Utf8.decode (chomp line)

end Excerpt.Line
