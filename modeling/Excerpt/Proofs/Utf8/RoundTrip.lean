import Mathlib.Data.List.Basic
import Excerpt.Utf8

/-!
This module contains the round trip of text through its encoding: the decoder takes the bytes of every character
back to that character, and stands between two characters behind them.
-/

namespace Excerpt
namespace Utf8

theorem begin_toNat (byte : UInt8) :
    begin byte
      = if byte.toNat < 0x80 then ([Char.ofNat byte.toNat], .ready)
        else if byte.toNat < 0xC2 then ([replacement], .ready)
        else if byte.toNat < 0xE0 then ([], .inside (byte.toNat - 0xC0) 0x80 0xBF 0)
        else if byte.toNat = 0xE0 then ([], .inside 0x0 0xA0 0xBF 1)
        else if byte.toNat = 0xED then ([], .inside 0xD 0x80 0x9F 1)
        else if byte.toNat < 0xF0 then ([], .inside (byte.toNat - 0xE0) 0x80 0xBF 1)
        else if byte.toNat = 0xF0 then ([], .inside 0x0 0x90 0xBF 2)
        else if byte.toNat < 0xF4 then ([], .inside (byte.toNat - 0xF0) 0x80 0xBF 2)
        else if byte.toNat = 0xF4 then ([], .inside 0x4 0x80 0x8F 2)
        else ([replacement], .ready) := by
  simp only [begin, UInt8.lt_iff_toNat_lt, ← UInt8.toNat_inj]
  rfl

section

variable {byte low high : UInt8} {value more : Nat}

theorem begin_one (h : byte.toNat < 0x80) : begin byte = ([Char.ofNat byte.toNat], .ready) := by
  rw [begin_toNat, if_pos h]

theorem begin_two (hlow : 0xC2 ≤ byte.toNat) (hhigh : byte.toNat < 0xE0) :
    begin byte = ([], .inside (byte.toNat - 0xC0) 0x80 0xBF 0) := by
  rw [begin_toNat, if_neg (by omega), if_neg (by omega), if_pos hhigh]

theorem begin_three (hlow : 0xE0 ≤ byte.toNat) (hhigh : byte.toNat < 0xF0) :
    begin byte
      = ([], .inside (byte.toNat - 0xE0) (if byte.toNat = 0xE0 then 0xA0 else 0x80)
          (if byte.toNat = 0xED then 0x9F else 0xBF) 1) := by
  rw [begin_toNat, if_neg (by omega), if_neg (by omega), if_neg (by omega)]
  by_cases h0 : byte.toNat = 0xE0
  . simp [h0]
  . by_cases hD : byte.toNat = 0xED
    . simp [hD]
    . simp [h0, hD, hhigh]

theorem begin_four (hlow : 0xF0 ≤ byte.toNat) (hhigh : byte.toNat < 0xF5) :
    begin byte
      = ([], .inside (byte.toNat - 0xF0) (if byte.toNat = 0xF0 then 0x90 else 0x80)
          (if byte.toNat = 0xF4 then 0x8F else 0xBF) 2) := by
  rw [begin_toNat, if_neg (by omega), if_neg (by omega), if_neg (by omega), if_neg (by omega), if_neg (by omega),
    if_neg (by omega)]
  by_cases h0 : byte.toNat = 0xF0
  . simp [h0]
  . by_cases h4 : byte.toNat = 0xF4
    . simp [h4]
    . have hlt : byte.toNat < 0xF4 := by omega
      simp [h0, h4, hlt]

theorem step_last (h : low ≤ byte ∧ byte ≤ high) :
    step (.inside value low high 0) byte = ([Char.ofNat (value * 64 + (byte.toNat - 0x80))], .ready) := by
  simp only [step, if_pos h]

theorem step_more (h : low ≤ byte ∧ byte ≤ high) :
    step (.inside value low high (more + 1)) byte
      = ([], .inside (value * 64 + (byte.toNat - 0x80)) 0x80 0xBF more) := by
  simp only [step, if_pos h]

end

section

variable {a b c d : UInt8}

theorem run_one (ha : a.toNat < 0x80) : run .ready [a] = ([Char.ofNat a.toNat], .ready) := by
  simp [run, step, begin_one ha]

theorem run_two (ha : 0xC2 ≤ a.toNat) (ha' : a.toNat < 0xE0) (hb : 0x80 ≤ b ∧ b ≤ 0xBF) :
    run .ready [a, b] = ([Char.ofNat ((a.toNat - 0xC0) * 64 + (b.toNat - 0x80))], .ready) := by
  simp only [run, step.eq_1, begin_two ha ha', step_last hb]
  rfl

theorem run_three (ha : 0xE0 ≤ a.toNat) (ha' : a.toNat < 0xF0)
    (hb : (if a.toNat = 0xE0 then 0xA0 else 0x80) ≤ b ∧ b ≤ (if a.toNat = 0xED then 0x9F else 0xBF))
    (hc : 0x80 ≤ c ∧ c ≤ 0xBF) :
    run .ready [a, b, c]
      = ([Char.ofNat (((a.toNat - 0xE0) * 64 + (b.toNat - 0x80)) * 64 + (c.toNat - 0x80))], .ready) := by
  simp only [run, step.eq_1, begin_three ha ha', step_more hb, step_last hc]
  rfl

theorem run_four (ha : 0xF0 ≤ a.toNat) (ha' : a.toNat < 0xF5)
    (hb : (if a.toNat = 0xF0 then 0x90 else 0x80) ≤ b ∧ b ≤ (if a.toNat = 0xF4 then 0x8F else 0xBF))
    (hc : 0x80 ≤ c ∧ c ≤ 0xBF) (hd : 0x80 ≤ d ∧ d ≤ 0xBF) :
    run .ready [a, b, c, d]
      = ([Char.ofNat ((((a.toNat - 0xF0) * 64 + (b.toNat - 0x80)) * 64 + (c.toNat - 0x80)) * 64
          + (d.toNat - 0x80))], .ready) := by
  simp only [run, step.eq_1, begin_four ha ha', step_more hb, step_more hc, step_last hd]
  rfl

end

theorem toNat_ofNat {n : Nat} (h : n < 256) : (UInt8.ofNat n).toNat = n := UInt8.toNat_ofNat_of_lt' h

theorem toNat_continuation (n : Nat) : (UInt8.ofNat (n % 0x40 + 0x80)).toNat = n % 64 + 0x80 := by
  apply toNat_ofNat
  omega

theorem continuation_bounds (n : Nat) :
    0x80 ≤ UInt8.ofNat (n % 0x40 + 0x80) ∧ UInt8.ofNat (n % 0x40 + 0x80) ≤ 0xBF := by
  have hn : n % 64 < 64 := Nat.mod_lt n (by decide)
  simp only [UInt8.le_iff_toNat_le, toNat_continuation]
  constructor
  . show 0x80 ≤ _
    omega
  . show _ ≤ 0xBF
    omega

theorem second_bounds {p q : Prop} [Decidable p] [Decidable q] {n : Nat} {low high : UInt8}
    (hlow : p → low.toNat ≤ n % 64 + 0x80) (hhigh : q → n % 64 + 0x80 ≤ high.toNat) :
    (if p then low else 0x80) ≤ UInt8.ofNat (n % 0x40 + 0x80)
      ∧ UInt8.ofNat (n % 0x40 + 0x80) ≤ (if q then high else 0xBF) := by
  constructor
  . split
    . next hp =>
      rw [UInt8.le_iff_toNat_le, toNat_continuation]
      exact hlow hp
    . exact (continuation_bounds n).1
  . split
    . next hq =>
      rw [UInt8.le_iff_toNat_le, toNat_continuation]
      exact hhigh hq
    . exact (continuation_bounds n).2

theorem run_utf8EncodeChar (c : Char) : run .ready (String.utf8EncodeChar c) = ([c], .ready) := by
  have hc : c.val.toNat < 0xD800 ∨ (0xDFFF < c.val.toNat ∧ c.val.toNat < 0x110000) := c.valid
  have hofNat : Char.ofNat c.val.toNat = c := Char.ofNat_toNat c
  unfold String.utf8EncodeChar
  generalize c.val.toNat = v at hc hofNat
  dsimp only
  split_ifs with h1 h2 h3
  . have ha : (UInt8.ofNat v).toNat = v := toNat_ofNat (by omega)
    rw [run_one (by omega), ha, hofNat]
  . have ha : (UInt8.ofNat (v / 64 % 0x20 + 0xC0)).toNat = v / 64 + 0xC0 := by
      rw [toNat_ofNat (by omega)]
      omega
    have hv : (v / 64 + 0xC0 - 0xC0) * 64 + (v % 64 + 0x80 - 0x80) = v := by omega
    rw [run_two (by omega) (by omega) (continuation_bounds v), ha, toNat_continuation, hv, hofNat]
  . have ha : (UInt8.ofNat (v / 4096 % 0x10 + 0xE0)).toNat = v / 4096 + 0xE0 := by
      rw [toNat_ofNat (by omega)]
      omega
    have hv : ((v / 4096 + 0xE0 - 0xE0) * 64 + (v / 64 % 64 + 0x80 - 0x80)) * 64 + (v % 64 + 0x80 - 0x80) = v := by
      omega
    -- The first byte 0xE0 leaves out the overlong forms, and 0xED the surrogates.
    have hlow : v / 4096 + 0xE0 = 0xE0 → 0xA0 ≤ v / 64 % 64 + 0x80 := by omega
    have hhigh : v / 4096 + 0xE0 = 0xED → v / 64 % 64 + 0x80 ≤ 0x9F := by omega
    rw [run_three (by omega) (by omega) (ha ▸ second_bounds hlow hhigh) (continuation_bounds v), ha,
      toNat_continuation, toNat_continuation, hv, hofNat]
  . have ha : (UInt8.ofNat (v / 262144 % 0x08 + 0xF0)).toNat = v / 262144 + 0xF0 := by
      rw [toNat_ofNat (by omega)]
      omega
    have hv : (((v / 262144 + 0xF0 - 0xF0) * 64 + (v / 4096 % 64 + 0x80 - 0x80)) * 64
        + (v / 64 % 64 + 0x80 - 0x80)) * 64 + (v % 64 + 0x80 - 0x80) = v := by
      omega
    -- The first byte 0xF0 leaves out the overlong forms, and 0xF4 what lies past the last character.
    have hlow : v / 262144 + 0xF0 = 0xF0 → 0x90 ≤ v / 4096 % 64 + 0x80 := by omega
    have hhigh : v / 262144 + 0xF0 = 0xF4 → v / 4096 % 64 + 0x80 ≤ 0x8F := by omega
    rw [run_four (by omega) (by omega) (ha ▸ second_bounds hlow hhigh) (continuation_bounds _) (continuation_bounds v),
      ha, toNat_continuation, toNat_continuation, toNat_continuation, hv, hofNat]

theorem run_encode (s : Text) : run .ready (encode s) = (s, .ready) := by
  induction s with
  | nil => rfl
  | cons c s ih =>
    rw [encode_cons, run_append, run_utf8EncodeChar, ih]
    rfl

@[simp]
theorem decode_encode (s : Text) : decode (encode s) = s := by
  rw [decode, run_encode]
  exact List.append_nil s

theorem mem_utf8EncodeChar_of_lt {c : Char} {byte : UInt8} (hbyte : byte.toNat < 0x80)
    (h : byte ∈ String.utf8EncodeChar c) : c = Char.ofNat byte.toNat := by
  have hofNat : Char.ofNat c.val.toNat = c := Char.ofNat_toNat c
  unfold String.utf8EncodeChar at h
  generalize c.val.toNat = v at h hofNat
  dsimp only at h
  split_ifs at h with h1 h2 h3
  . rw [List.mem_singleton.mp h, toNat_ofNat (by omega), hofNat]
  -- Every byte of a longer form is at least 0x80.
  all_goals
    exfalso
    simp only [List.mem_cons, List.not_mem_nil, or_false] at h
    rcases h with rfl | h
    . rw [toNat_ofNat (by omega)] at hbyte
      omega
    . rcases h with rfl | rfl | rfl
      all_goals
        rw [toNat_continuation] at hbyte
        omega

theorem lineFeed_not_mem_encode {s : Text} (h : '\n' ∉ s) : 0x0A ∉ encode s := by
  intro hmem
  obtain ⟨c, hc, hbyte⟩ := List.mem_flatMap.mp hmem
  have hc' : c = '\n' := mem_utf8EncodeChar_of_lt (by decide) hbyte
  exact h (hc' ▸ hc)

end Utf8
end Excerpt
