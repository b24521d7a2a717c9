import Mathlib.Data.List.Forall2
import Excerpt.Record.Basic

/-!
This module contains the grammar of a record with a delimiter of one character, and how `split` reads each of its
forms. Every text has exactly one form: it is complete, its last field lacks a closing quote, or a closing quote is
followed by something other than a delimiter.
-/

namespace Excerpt
namespace Record

inductive QuotedBody : Text → Text → Prop
  | nil : QuotedBody [] []
  | other {c : Char} {body value : Text} (hc : c ≠ '"') (h : QuotedBody body value)
    : QuotedBody (c :: body) (c :: value)
  | pair {body value : Text} (h : QuotedBody body value) : QuotedBody ('"' :: '"' :: body) ('"' :: value)

inductive RawField (d : Char) : Text → Text → Prop
  | plain {raw : Text} (hquote : raw.head? ≠ some '"') (hd : d ∉ raw) : RawField d raw raw
  | quoted {body value : Text} (h : QuotedBody body value) : RawField d ('"' :: (body ++ ['"'])) value

namespace QuotedBody

theorem closeQuote_eq_none {body value : Text} (h : QuotedBody body value) : closeQuote body = none := by
  induction h with
  | nil => rfl
  | other hc _ ih => rw [closeQuote_cons_of_ne hc, ih, Option.map_none]
  | pair _ ih => rw [closeQuote_pair, ih, Option.map_none]

theorem closeQuote_append {body value rest : Text} (h : QuotedBody body value) (hrest : rest.head? ≠ some '"') :
    closeQuote (body ++ '"' :: rest) = some (value, rest) := by
  induction h with
  | nil => exact closeQuote_quote hrest
  | other hc _ ih => rw [List.cons_append, closeQuote_cons_of_ne hc, ih, Option.map_some]
  | pair _ ih => rw [List.cons_append, List.cons_append, closeQuote_pair, ih, Option.map_some]

theorem unclosed_or_closed (s : Text) :
    (∃ value, QuotedBody s value)
      ∨ ∃ body value rest, QuotedBody body value ∧ rest.head? ≠ some '"' ∧ s = body ++ '"' :: rest := by
  fun_induction closeQuote s with
  | case1 => exact .inl ⟨[], .nil⟩
  | case2 s ih =>
    cases ih with
    | inl h =>
      obtain ⟨value, h⟩ := h
      exact .inl ⟨_, h.pair⟩
    | inr h =>
      obtain ⟨body, value, rest, h, hrest, rfl⟩ := h
      exact .inr ⟨_, _, rest, h.pair, hrest, rfl⟩
  | case3 s hs =>
    refine .inr ⟨[], [], s, .nil, ?_, rfl⟩
    intro hquote
    cases s with
    | nil => simp at hquote
    | cons c s =>
      simp only [List.head?_cons, Option.some.injEq] at hquote
      subst hquote
      exact hs s rfl rfl
  | case4 c s _ hc ih =>
    cases ih with
    | inl h =>
      obtain ⟨value, h⟩ := h
      exact .inl ⟨_, h.other hc⟩
    | inr h =>
      obtain ⟨body, value, rest, h, hrest, rfl⟩ := h
      exact .inr ⟨_, _, rest, h.other hc, hrest, rfl⟩

theorem of_append_cons {part rest value : Text} {c : Char} (h : QuotedBody (part ++ c :: rest) value)
    (hc : c ≠ '"') : ∃ value, QuotedBody part value := by
  generalize hbody : part ++ c :: rest = body at h
  -- No pair of quotes is cut in two: a character other than a quote follows the part.
  induction h generalizing part with
  | nil => simp at hbody
  | other he _ ih =>
    cases part with
    | nil => exact ⟨[], .nil⟩
    | cons e part =>
      simp only [List.cons_append, List.cons.injEq] at hbody
      obtain ⟨value, h⟩ := ih hbody.2
      exact ⟨_, h.other (hbody.1 ▸ he)⟩
  | pair _ ih =>
    cases part with
    | nil =>
      simp only [List.nil_append, List.cons.injEq] at hbody
      exact absurd hbody.1 hc
    | cons e part =>
      cases part with
      | nil =>
        simp only [List.cons_append, List.nil_append, List.cons.injEq] at hbody
        exact absurd hbody.2.1 hc
      | cons e' part =>
        simp only [List.cons_append, List.cons.injEq] at hbody
        obtain ⟨rfl, rfl, hbody⟩ := hbody
        obtain ⟨value, h⟩ := ih hbody
        exact ⟨_, h.pair⟩

theorem of_closed_append_cons {body value part rest : Text} {c : Char} (h : QuotedBody body value)
    (hbody : body ++ ['"'] = part ++ c :: rest) (hc : c ≠ '"') : ∃ value, QuotedBody part value := by
  cases rest.eq_nil_or_concat' with
  | inl hrest =>
    subst hrest
    have hlast := (List.append_inj' hbody rfl).2
    simp only [List.cons.injEq, and_true] at hlast
    exact absurd hlast.symm hc
  | inr hrest =>
    obtain ⟨rest, last, rfl⟩ := hrest
    rw [← List.cons_append, ← List.append_assoc] at hbody
    have hpart := (List.append_inj' hbody rfl).1
    subst hpart
    exact h.of_append_cons hc

variable {d : Char} {body value : Text}

theorem firstField_eq_error (h : QuotedBody body value) :
    firstField [d] ('"' :: body) = .error .unterminatedQuote := by
  simp only [firstField, h.closeQuote_eq_none]

theorem firstField_stray {c : Char} {rest : Text} (h : QuotedBody body value) (hd : c ≠ d) (hquote : c ≠ '"') :
    firstField [d] ('"' :: (body ++ '"' :: c :: rest)) = .error (.strayAfterQuote (body.length + 3)) := by
  have hclose : closeQuote (body ++ '"' :: c :: rest) = some (value, c :: rest) := by
    apply h.closeQuote_append
    simp [hquote]
  have hcolumn : ('"' :: (body ++ '"' :: c :: rest)).length - rest.length = body.length + 3 := by
    simp
    omega
  simp only [firstField, hclose, hcolumn]
  simp [hd]

end QuotedBody

namespace RawField

variable {d : Char} {raw value : Text}

theorem firstField_eq (h : RawField d raw value) : firstField [d] raw = .ok (value, []) := by
  cases h with
  | plain hquote hd => rw [firstField_of_head_ne hquote, Text.breakOn_singleton_of_not_mem hd]
  | @quoted body _ h =>
    have hclose : closeQuote (body ++ ['"']) = some (value, []) := h.closeQuote_append (by simp)
    simp only [firstField, hclose]

theorem firstField_append {rest : Text} (h : RawField d raw value) (hd : d ≠ '"') :
    firstField [d] (raw ++ d :: rest) = .ok (value, d :: rest) := by
  cases h with
  | plain hquote hmem =>
    rw [firstField_of_head_ne, Text.breakOn_singleton_append hmem]
    cases raw with
    | nil => simpa using hd
    | cons c raw => simpa using hquote
  | @quoted body _ h =>
    have hclose : closeQuote (body ++ '"' :: d :: rest) = some (value, d :: rest) := by
      apply h.closeQuote_append
      simpa using hd
    simp [firstField, hclose]

theorem split_eq (h : RawField d raw value) : split [d] raw = .ok [value] := split_of_last h.firstField_eq

theorem split_append {rest : Text} (h : RawField d raw value) (hd : d ≠ '"') :
    split [d] (raw ++ d :: rest)
      = match split [d] rest with
        | .error e => .error (e.shift (raw.length + 1))
        | .ok fields => .ok (value :: fields) := by
  have hlength : (raw ++ d :: rest).length - rest.length = raw.length + 1 := by
    simp
    omega
  have hfirst : firstField [d] (raw ++ d :: rest) = .ok (value, d :: rest) := h.firstField_append hd
  have hmore := split_of_more hfirst
  rw [hlength] at hmore
  exact hmore

end RawField

theorem QuotedBody.split_eq_error {d : Char} {body value : Text} (h : QuotedBody body value) :
    split [d] ('"' :: body) = .error .unterminatedQuote := split_of_error h.firstField_eq_error

theorem QuotedBody.split_stray {d c : Char} {body value rest : Text} (h : QuotedBody body value) (hd : c ≠ d)
    (hquote : c ≠ '"') :
    split [d] ('"' :: (body ++ '"' :: c :: rest)) = .error (.strayAfterQuote (body.length + 3)) :=
  split_of_error (h.firstField_stray hd hquote)

theorem firstField_cases (d : Char) (s : Text) :
    (∃ value, RawField d s value)
      ∨ (∃ body value, QuotedBody body value ∧ s = '"' :: body)
      ∨ (∃ body value c rest, QuotedBody body value ∧ c ≠ d ∧ c ≠ '"' ∧ s = '"' :: (body ++ '"' :: c :: rest))
      ∨ ∃ raw value rest, RawField d raw value ∧ s = raw ++ d :: rest := by
  by_cases hquote : s.head? = some '"'
  . obtain ⟨s, rfl⟩ := List.head?_eq_some_iff.mp hquote
    cases QuotedBody.unclosed_or_closed s with
    | inl h =>
      obtain ⟨value, h⟩ := h
      exact .inr (.inl ⟨s, value, h, rfl⟩)
    | inr h =>
      obtain ⟨body, value, rest, h, hrest, rfl⟩ := h
      cases rest with
      | nil => exact .inl ⟨value, .quoted h⟩
      | cons c rest =>
        by_cases hc : c = d
        . subst hc
          exact .inr (.inr (.inr ⟨_, value, rest, .quoted h, by simp⟩))
        . exact .inr (.inr (.inl ⟨body, value, c, rest, h, hc, by simpa using hrest, rfl⟩))
  . by_cases hd : d ∈ s
    . obtain ⟨raw, rest, rfl, hraw⟩ := List.eq_append_cons_of_mem hd
      refine .inr (.inr (.inr ⟨raw, raw, rest, .plain ?_ hraw, rfl⟩))
      cases raw with
      | nil => simp
      | cons c raw => simpa using hquote
    . exact .inl ⟨s, .plain hquote hd⟩

@[elab_as_elim]
theorem fieldwise {d : Char} {motive : Text → Prop}
    (last : ∀ raw value, RawField d raw value → motive raw)
    (unclosed : ∀ body value, QuotedBody body value → motive ('"' :: body))
    (stray : ∀ body value c rest, QuotedBody body value → c ≠ d → c ≠ '"'
      → motive ('"' :: (body ++ '"' :: c :: rest)))
    (more : ∀ raw value rest, RawField d raw value → motive rest → motive (raw ++ d :: rest))
    (s : Text) : motive s := by
  induction hs : s.length using Nat.strongRecOn generalizing s with
  | _ n ih =>
    subst hs
    rcases firstField_cases d s with ⟨value, h⟩ | ⟨body, value, h, rfl⟩
      | ⟨body, value, c, rest, h, hd, hquote, rfl⟩ | ⟨raw, value, rest, h, rfl⟩
    . exact last s value h
    . exact unclosed body value h
    . exact stray body value c rest h hd hquote
    . have hlength : rest.length < (raw ++ d :: rest).length := by
        simp
        omega
      exact more raw value rest h (ih _ hlength rest rfl)

end Record
end Excerpt
