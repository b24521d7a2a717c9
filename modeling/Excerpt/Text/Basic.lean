/-!
This module contains the two kinds of data that everything else works on, decoded text and raw bytes, and the two
searches on texts: for the first occurrence of a pattern, and for the first occurrence of a character. Both say where
the text is to be taken apart; neither loses a character.
-/

namespace Excerpt

/--
Decoded text, one element per Unicode scalar value. Lengths, columns and positions of characters count these.
-/
abbrev Text := List Char

abbrev Bytes := List UInt8

def Text.ofNat (n : Nat) : Text := Nat.toDigits 10 n

namespace Text

/--
What stands before the first occurrence of `pattern`, and the rest of the text from that occurrence on. The empty
pattern occurs in front of everything.
-/
def breakOn (pattern : Text) : Text → Option (Text × Text)
  | [] => if pattern = [] then some ([], []) else none
  | c :: s =>
    if pattern.isPrefixOf (c :: s) then
      some ([], c :: s)
    else
      (breakOn pattern s).map fun (before, rest) => (c :: before, rest)

theorem append_of_breakOn {pattern s before rest : Text} (h : breakOn pattern s = some (before, rest)) :
    before ++ rest = s := by
  induction s generalizing before with
  | nil =>
    unfold breakOn at h
    split at h <;> simp_all
  | cons c s ih =>
    unfold breakOn at h
    split at h
    . simp_all
    . cases hs : breakOn pattern s with
      | none => simp [hs] at h
      | some found =>
        simp only [hs, Option.map_some, Option.some.injEq, Prod.mk.injEq] at h
        obtain ⟨rfl, rfl⟩ := h
        simp [ih hs]

theorem breakOn_singleton_of_not_mem {d : Char} {s : Text} (h : d ∉ s) : breakOn [d] s = none := by
  induction s with
  | nil => rfl
  | cons c s ih =>
    simp only [List.mem_cons, not_or] at h
    rw [breakOn]
    simp [h.1, ih h.2]

theorem breakOn_singleton_append {d : Char} {s rest : Text} (h : d ∉ s) :
    breakOn [d] (s ++ d :: rest) = some (s, d :: rest) := by
  induction s with
  | nil => simp [breakOn]
  | cons c s ih =>
    simp only [List.mem_cons, not_or] at h
    rw [List.cons_append, breakOn]
    simp [h.1, ih h.2]

def occursIn (pattern s : Text) : Bool := (breakOn pattern s).isSome

@[simp]
theorem occursIn_singleton {d : Char} {s : Text} : occursIn [d] s = true ↔ d ∈ s := by
  constructor
  . intro h
    apply Decidable.byContradiction
    intro hd
    rw [occursIn, breakOn_singleton_of_not_mem hd] at h
    simp at h
  . intro h
    obtain ⟨before, rest, rfl, hd⟩ := List.eq_append_cons_of_mem h
    rw [occursIn, breakOn_singleton_append hd]
    rfl

def divideAt (sep : Char) : Text → Option (Text × Text)
  | [] => none
  | c :: s =>
    if c = sep then
      some ([], s)
    else
      (divideAt sep s).map fun (before, after) => (c :: before, after)

theorem append_of_divideAt {sep : Char} {s before after : Text} (h : divideAt sep s = some (before, after)) :
    before ++ sep :: after = s := by
  induction s generalizing before with
  | nil => simp [divideAt] at h
  | cons c s ih =>
    unfold divideAt at h
    split at h
    . simp_all
    . cases hs : divideAt sep s with
      | none => simp [hs] at h
      | some found =>
        simp only [hs, Option.map_some, Option.some.injEq, Prod.mk.injEq] at h
        obtain ⟨rfl, rfl⟩ := h
        simp [ih hs]

end Text

end Excerpt
