import Excerpt.Proofs.Utf8.Decoded

/-!
This module contains what the decoder does at a seam between two pieces of data. The pieces can be decoded one by one
if a character ends in front of the seam, or if no continuation byte follows it. A character that a seam goes through
leaves one replacement in front of it, and one for each of its bytes behind it.
-/

namespace Excerpt
namespace Utf8

def IsContinuation (byte : UInt8) : Prop := 0x80 ≤ byte ∧ byte ≤ 0xBF

instance : DecidablePred IsContinuation := fun byte => inferInstanceAs (Decidable (0x80 ≤ byte ∧ byte ≤ 0xBF))

def State.Wellformed : State → Prop
  | .ready => True
  | .inside _ low high _ => 0x80 ≤ low ∧ high ≤ 0xBF

section

variable {state : State} {byte : UInt8} {data more part rest : Bytes} {c : Char}

theorem wellformed_begin (byte : UInt8) : (begin byte).2.Wellformed := by
  unfold begin
  repeat' split
  all_goals simp [State.Wellformed]

theorem wellformed_step (h : state.Wellformed) (byte : UInt8) : (step state byte).2.Wellformed := by
  cases state with
  | ready => exact wellformed_begin byte
  | inside value low high more =>
    by_cases hbyte : low ≤ byte ∧ byte ≤ high
    . cases more with
      | zero =>
        rw [step_last hbyte]
        trivial
      | succ more =>
        rw [step_more hbyte]
        exact ⟨UInt8.le_refl 0x80, UInt8.le_refl 0xBF⟩
    . rw [step, if_neg hbyte]
      exact wellformed_begin byte

theorem wellformed_run (h : state.Wellformed) (data : Bytes) : (run state data).2.Wellformed := by
  induction data generalizing state with
  | nil => exact h
  | cons byte data ih => exact ih (wellformed_step h byte)

theorem step_of_not_continuation (h : state.Wellformed) (hbyte : ¬ IsContinuation byte) :
    step state byte = (state.close ++ (begin byte).1, (begin byte).2) := by
  cases state with
  | ready => rfl
  | inside value low high more =>
    have houtside : ¬ (low ≤ byte ∧ byte ≤ high) := by
      intro hinside
      apply hbyte
      exact ⟨UInt8.le_trans h.1 hinside.1, UInt8.le_trans hinside.2 h.2⟩
    rw [step, if_neg houtside]
    rfl

theorem run_of_not_continuation (h : state.Wellformed) (hbyte : ¬ IsContinuation byte) :
    run state (byte :: data) = (state.close ++ (run .ready (byte :: data)).1, (run .ready (byte :: data)).2) := by
  simp only [run, step_of_not_continuation h hbyte, step.eq_1, List.append_assoc]

theorem decode_append_of_head? (h : ∀ byte, more.head? = some byte → ¬ IsContinuation byte) :
    decode (data ++ more) = decode data ++ decode more := by
  cases more with
  | nil => simp
  | cons byte more =>
    have hready : State.ready.Wellformed := trivial
    have hstate := wellformed_run hready data
    simp only [decode, run_append, run_of_not_continuation hstate (h byte rfl), List.append_assoc]

theorem decode_append_of_run {text : Text} (h : run .ready data = (text, .ready)) :
    decode (data ++ more) = text ++ decode more := by
  simp only [decode, run_append, h, List.append_assoc]

theorem decode_utf8EncodeChar_append : decode (String.utf8EncodeChar c ++ more) = c :: decode more :=
  decode_append_of_run (run_utf8EncodeChar c)

theorem decode_append_cons (h : byte.toNat < 0x80) :
    decode (data ++ byte :: more) = decode data ++ Char.ofNat byte.toNat :: decode more := by
  have hseam : decode (data ++ byte :: more) = decode data ++ decode (byte :: more) := by
    apply decode_append_of_head?
    intro first hfirst hcontinuation
    rw [List.head?_cons, Option.some.injEq] at hfirst
    have hbounds : 0x80 ≤ first.toNat := (bounds_toNat hcontinuation).1
    rw [hfirst] at h
    omega
  have hone : decode ([byte] ++ more) = [Char.ofNat byte.toNat] ++ decode more := decode_append_of_run (run_one h)
  rw [hseam, ← List.singleton_append, hone, List.singleton_append]

theorem run_continuations (h : ∀ byte ∈ data, IsContinuation byte) :
    run .ready data = (List.replicate data.length replacement, .ready) := by
  induction data with
  | nil => rfl
  | cons byte data ih =>
    have hbyte : 0x80 ≤ byte.toNat ∧ byte.toNat ≤ 0xBF := bounds_toNat (h byte List.mem_cons_self)
    have hbegin : begin byte = ([replacement], .ready) := begin_illFormed (by omega)
    simp only [run, step.eq_1, hbegin, ih fun byte hmem => h byte (List.mem_cons_of_mem _ hmem)]
    rfl

theorem isContinuation_of_mem_drop {n : Nat} (hn : 0 < n) (h : byte ∈ (String.utf8EncodeChar c).drop n) :
    IsContinuation byte := by
  have htail : byte ∈ (String.utf8EncodeChar c).tail := by
    rw [← List.drop_one]
    exact List.drop_subset_drop_left _ hn h
  clear h
  unfold String.utf8EncodeChar at htail
  generalize c.val.toNat = v at htail
  dsimp only at htail
  split_ifs at htail
  all_goals
    simp only [List.tail_cons, List.mem_cons, List.not_mem_nil, or_false] at htail
  . rw [htail]
    exact continuation_bounds v
  . rcases htail with rfl | rfl
    . exact continuation_bounds (v / 64)
    . exact continuation_bounds v
  . rcases htail with rfl | rfl | rfl
    . exact continuation_bounds (v / 4096)
    . exact continuation_bounds (v / 64)
    . exact continuation_bounds v

theorem decode_tail_append {n m : Nat} (hn : 0 < n) :
    decode (((String.utf8EncodeChar c).drop n).take m ++ more)
      = List.replicate (min m ((String.utf8EncodeChar c).length - n)) replacement ++ decode more := by
  have hbytes : ∀ byte ∈ ((String.utf8EncodeChar c).drop n).take m, IsContinuation byte := by
    intro byte hbyte
    exact isContinuation_of_mem_drop hn (List.mem_of_mem_take hbyte)
  rw [decode_append_of_run (run_continuations hbytes), List.length_take, List.length_drop]

/--
A character of which only the first bytes are there is one replacement.
-/
theorem decode_truncated (h : part ++ rest = String.utf8EncodeChar c) (hpart : part ≠ []) (hrest : rest ≠ []) :
    decode part = [replacement] := by
  have hrun : run .ready (part ++ rest) = ([c], .ready) := by rw [h, run_utf8EncodeChar]
  obtain ⟨done, held, hdata, hdone, hheld⟩ := run_decoded .ready part
  obtain ⟨done', held', hdata', hdone', hheld'⟩ := run_decoded hheld rest
  rw [run_append, Prod.mk.injEq] at hrun
  rw [hrun.2] at hheld'
  cases hheld'
  -- The rest settles the one character, so nothing is settled in front of it.
  have hlate : (run (run .ready part).2 rest).1 ≠ [] := by
    intro hnil
    rw [hnil] at hdone'
    cases hdone'
    simp only [List.append_nil, List.append_eq_nil_iff] at hdata'
    exact hrest hdata'.2
  have hearly : (run .ready part).1 = [] := by
    rcases List.append_eq_singleton_iff.mp hrun.1 with hearly | hearly
    . exact hearly.1
    . exact absurd hearly.2 hlate
  rw [hearly] at hdone
  cases hdone
  show (run .ready part).1 ++ (run .ready part).2.close = [replacement]
  rw [hearly, List.nil_append]
  generalize (run .ready part).2 = state at hheld
  cases hheld with
  | ready => exact absurd hdata hpart
  | last => rfl
  | more => rfl

theorem decode_take_utf8EncodeChar {n : Nat} (hn : 0 < n) (hlt : n < (String.utf8EncodeChar c).length) :
    decode ((String.utf8EncodeChar c).take n) = [replacement] := by
  apply decode_truncated (List.take_append_drop n (String.utf8EncodeChar c))
  . apply List.ne_nil_of_length_pos
    rw [List.length_take]
    omega
  . apply List.ne_nil_of_length_pos
    rw [List.length_drop]
    omega

end

end Utf8
end Excerpt
