import Excerpt.Proofs.Utf8.RoundTrip

/-!
This module contains what the decoder makes of arbitrary bytes: every character of the decoded text either has its
own encoding in the data, or is a replacement for some bytes. So no character comes out that is not in the data, and
the text is never longer than the data.
-/

namespace Excerpt
namespace Utf8

section

variable {v : Nat} {a b c d : UInt8}

theorem utf8EncodeChar_ofNat (h : v.isValidChar) :
    String.utf8EncodeChar (Char.ofNat v)
      = if v ≤ 127 then [UInt8.ofNat v]
        else if v ≤ 2047 then [UInt8.ofNat (v / 64 % 32 + 192), UInt8.ofNat (v % 64 + 128)]
        else if v ≤ 65535 then
          [UInt8.ofNat (v / 4096 % 16 + 224), UInt8.ofNat (v / 64 % 64 + 128), UInt8.ofNat (v % 64 + 128)]
        else
          [UInt8.ofNat (v / 262144 % 8 + 240), UInt8.ofNat (v / 4096 % 64 + 128), UInt8.ofNat (v / 64 % 64 + 128),
            UInt8.ofNat (v % 64 + 128)] := by
  have hval : (Char.ofNat v).val.toNat = v := by
    rw [Char.ofNat, dif_pos h]
    rfl
  simp only [String.utf8EncodeChar, hval]

theorem bounds_toNat {low high : UInt8} (h : low ≤ b ∧ b ≤ high) : low.toNat ≤ b.toNat ∧ b.toNat ≤ high.toNat := by
  simpa only [UInt8.le_iff_toNat_le] using h

theorem second_bounds_toNat {p q : Prop} [Decidable p] [Decidable q] {low high : UInt8} (hlow : 0x80 ≤ low.toNat)
    (hhigh : high.toNat ≤ 0xBF) (h : (if p then low else 0x80) ≤ b ∧ b ≤ (if q then high else 0xBF)) :
    0x80 ≤ b.toNat ∧ b.toNat ≤ 0xBF ∧ (p → low.toNat ≤ b.toNat) ∧ (q → b.toNat ≤ high.toNat) := by
  have hb := bounds_toNat h
  by_cases hp : p
  . by_cases hq : q
    . simp only [hp, hq, if_true] at hb
      exact ⟨by omega, by omega, fun _ => hb.1, fun _ => hb.2⟩
    . simp only [hp, hq, if_true, if_false] at hb
      exact ⟨by omega, hb.2, fun _ => hb.1, fun h => absurd h hq⟩
  . by_cases hq : q
    . simp only [hp, hq, if_true, if_false] at hb
      exact ⟨hb.1, by omega, fun h => absurd h hp, fun _ => hb.2⟩
    . simp only [hp, hq, if_false] at hb
      exact ⟨hb.1, hb.2, fun h => absurd h hp, fun h => absurd h hq⟩

theorem eq_ofNat {n : Nat} (h : n = a.toNat) : a = UInt8.ofNat n := by
  rw [h, UInt8.ofNat_toNat]

theorem utf8EncodeChar_one (ha : a.toNat < 0x80) : [a] = String.utf8EncodeChar (Char.ofNat a.toNat) := by
  rw [utf8EncodeChar_ofNat (by left; omega), if_pos (by omega), UInt8.ofNat_toNat]

theorem utf8EncodeChar_two (ha : 0xC2 ≤ a.toNat) (ha' : a.toNat < 0xE0) (hb : 0x80 ≤ b ∧ b ≤ 0xBF) :
    [a, b] = String.utf8EncodeChar (Char.ofNat ((a.toNat - 0xC0) * 64 + (b.toNat - 0x80))) := by
  have hb : 0x80 ≤ b.toNat ∧ b.toNat ≤ 0xBF := bounds_toNat hb
  generalize hv : (a.toNat - 0xC0) * 64 + (b.toNat - 0x80) = v
  rw [utf8EncodeChar_ofNat (by left; omega), if_neg (by omega), if_pos (by omega)]
  rw [← eq_ofNat (a := a) (by omega), ← eq_ofNat (a := b) (by omega)]

theorem utf8EncodeChar_three (ha : 0xE0 ≤ a.toNat) (ha' : a.toNat < 0xF0)
    (hb : (if a.toNat = 0xE0 then 0xA0 else 0x80) ≤ b ∧ b ≤ (if a.toNat = 0xED then 0x9F else 0xBF))
    (hc : 0x80 ≤ c ∧ c ≤ 0xBF) :
    [a, b, c]
      = String.utf8EncodeChar
          (Char.ofNat (((a.toNat - 0xE0) * 64 + (b.toNat - 0x80)) * 64 + (c.toNat - 0x80))) := by
  have hb : 0x80 ≤ b.toNat ∧ b.toNat ≤ 0xBF ∧ (a.toNat = 0xE0 → 0xA0 ≤ b.toNat) ∧ (a.toNat = 0xED → b.toNat ≤ 0x9F) :=
    second_bounds_toNat (by decide) (by decide) hb
  have hc : 0x80 ≤ c.toNat ∧ c.toNat ≤ 0xBF := bounds_toNat hc
  generalize hv : ((a.toNat - 0xE0) * 64 + (b.toNat - 0x80)) * 64 + (c.toNat - 0x80) = v
  rw [utf8EncodeChar_ofNat (show v < 55296 ∨ 57343 < v ∧ v < 1114112 by omega), if_neg (by omega), if_neg (by omega),
    if_pos (by omega)]
  rw [← eq_ofNat (a := a) (by omega), ← eq_ofNat (a := b) (by omega), ← eq_ofNat (a := c) (by omega)]

theorem utf8EncodeChar_four (ha : 0xF0 ≤ a.toNat) (ha' : a.toNat < 0xF5)
    (hb : (if a.toNat = 0xF0 then 0x90 else 0x80) ≤ b ∧ b ≤ (if a.toNat = 0xF4 then 0x8F else 0xBF))
    (hc : 0x80 ≤ c ∧ c ≤ 0xBF) (hd : 0x80 ≤ d ∧ d ≤ 0xBF) :
    [a, b, c, d]
      = String.utf8EncodeChar
          (Char.ofNat ((((a.toNat - 0xF0) * 64 + (b.toNat - 0x80)) * 64 + (c.toNat - 0x80)) * 64
            + (d.toNat - 0x80))) := by
  have hb : 0x80 ≤ b.toNat ∧ b.toNat ≤ 0xBF ∧ (a.toNat = 0xF0 → 0x90 ≤ b.toNat) ∧ (a.toNat = 0xF4 → b.toNat ≤ 0x8F) :=
    second_bounds_toNat (by decide) (by decide) hb
  have hc : 0x80 ≤ c.toNat ∧ c.toNat ≤ 0xBF := bounds_toNat hc
  have hd : 0x80 ≤ d.toNat ∧ d.toNat ≤ 0xBF := bounds_toNat hd
  generalize hv : (((a.toNat - 0xF0) * 64 + (b.toNat - 0x80)) * 64 + (c.toNat - 0x80)) * 64 + (d.toNat - 0x80) = v
  rw [utf8EncodeChar_ofNat (show v < 55296 ∨ 57343 < v ∧ v < 1114112 by omega), if_neg (by omega), if_neg (by omega),
    if_neg (by omega)]
  rw [← eq_ofNat (a := a) (by omega), ← eq_ofNat (a := b) (by omega), ← eq_ofNat (a := c) (by omega),
    ← eq_ofNat (a := d) (by omega)]

end

/--
Some bytes and a text for them. Each character of the text stands for its own encoding, or, as a replacement, for any
bytes that are at least one.
-/
inductive Decoded : Bytes → Text → Prop
  | nil : Decoded [] []
  | char {data : Bytes} {text : Text} (c : Char) (h : Decoded data text)
    : Decoded (String.utf8EncodeChar c ++ data) (c :: text)
  | replaced {part data : Bytes} {text : Text} (hne : part ≠ []) (h : Decoded data text)
    : Decoded (part ++ data) (replacement :: text)

/--
The bytes that a state of the decoder holds: those of the character that has begun. Whichever bytes follow of those
that the state waits for, they complete the encoding of the character that the last of them settles.
-/
inductive State.Holds : State → Bytes → Prop
  | ready : Holds .ready []
  | last {value : Nat} {low high : UInt8} {part : Bytes} (hne : part ≠ [])
    (h : ∀ byte, low ≤ byte ∧ byte ≤ high →
      part ++ [byte] = String.utf8EncodeChar (Char.ofNat (value * 64 + (byte.toNat - 0x80))))
    : Holds (.inside value low high 0) part
  | more {value more : Nat} {low high : UInt8} {part : Bytes} (hne : part ≠ [])
    (h : ∀ byte, low ≤ byte ∧ byte ≤ high →
      Holds (.inside (value * 64 + (byte.toNat - 0x80)) 0x80 0xBF more) (part ++ [byte]))
    : Holds (.inside value low high (more + 1)) part

namespace Decoded

variable {part data more : Bytes} {text text' : Text}

theorem singleton (c : Char) : Decoded (String.utf8EncodeChar c) [c] := by
  simpa using Decoded.nil.char c

theorem illFormed (hne : part ≠ []) : Decoded part [replacement] := by
  simpa using Decoded.nil.replaced hne

theorem append (h : Decoded data text) (h' : Decoded more text') : Decoded (data ++ more) (text ++ text') := by
  induction h with
  | nil => exact h'
  | char c _ ih =>
    rw [List.append_assoc]
    exact ih.char c
  | replaced hne _ ih =>
    rw [List.append_assoc]
    exact ih.replaced hne

theorem length_le (h : Decoded data text) : text.length ≤ data.length := by
  induction h with
  | nil => exact Nat.le_refl 0
  | char c _ ih =>
    have hlength : 0 < (String.utf8EncodeChar c).length := List.length_pos_of_ne_nil String.utf8EncodeChar_ne_nil
    simp only [List.length_cons, List.length_append]
    omega
  | replaced hne _ ih =>
    have hlength := List.length_pos_of_ne_nil hne
    simp only [List.length_cons, List.length_append]
    omega

theorem subset_of_mem (h : Decoded data text) {c : Char} (hc : c ∈ text) (hne : c ≠ replacement) :
    String.utf8EncodeChar c ⊆ data := by
  induction h with
  | nil => cases hc
  | char e _ ih =>
    cases hc with
    | head => exact List.subset_append_left _ _
    | tail _ hc => exact List.subset_append_of_subset_right _ (ih hc)
  | replaced _ _ ih =>
    cases hc with
    | head => exact absurd rfl hne
    | tail _ hc => exact List.subset_append_of_subset_right _ (ih hc)

theorem text_ne_nil (h : Decoded data text) (hdata : data ≠ []) : text ≠ [] := by
  cases h with
  | nil => exact absurd rfl hdata
  | char => exact List.cons_ne_nil _ _
  | replaced => exact List.cons_ne_nil _ _

theorem isSuffix_of_getLast? (h : Decoded data text) {c : Char} (hc : text.getLast? = some c)
    (hne : c ≠ replacement) : String.utf8EncodeChar c <:+ data := by
  induction h with
  | nil => cases hc
  | @char data text e h ih =>
    by_cases htext : text = []
    . -- Bytes behind the character would be decoded to something.
      have hdata : data = [] := Decidable.of_not_not fun hdata => h.text_ne_nil hdata htext
      rw [htext, List.getLast?_singleton, Option.some.injEq] at hc
      exact ⟨[], by rw [hc, hdata, List.append_nil, List.nil_append]⟩
    . rw [List.getLast?_cons_of_ne_nil htext] at hc
      exact (ih hc).trans (List.suffix_append _ _)
  | @replaced part data text _ h ih =>
    by_cases htext : text = []
    . rw [htext, List.getLast?_singleton, Option.some.injEq] at hc
      exact absurd hc.symm hne
    . rw [List.getLast?_cons_of_ne_nil htext] at hc
      exact (ih hc).trans (List.suffix_append _ _)

end Decoded

section

variable {state : State} {part data : Bytes}

theorem begin_illFormed {byte : UInt8} (h : 0x80 ≤ byte.toNat ∧ byte.toNat < 0xC2 ∨ 0xF5 ≤ byte.toNat) :
    begin byte = ([replacement], .ready) := by
  rw [begin_toNat, if_neg (by omega)]
  rcases h with h | h
  . rw [if_pos h.2]
  . rw [if_neg (by omega), if_neg (by omega), if_neg (by omega), if_neg (by omega), if_neg (by omega),
      if_neg (by omega), if_neg (by omega), if_neg (by omega)]

theorem begin_lead {byte : UInt8} (hlow : 0xC2 ≤ byte.toNat) (hhigh : byte.toNat < 0xF5) :
    ∃ state, begin byte = ([], state) ∧ state.Holds [byte] := by
  by_cases htwo : byte.toNat < 0xE0
  . refine ⟨_, begin_two hlow htwo, .last (by simp) ?_⟩
    intro b hb
    exact utf8EncodeChar_two hlow htwo hb
  . by_cases hthree : byte.toNat < 0xF0
    . refine ⟨_, begin_three (by omega) hthree, .more (by simp) ?_⟩
      intro b hb
      refine .last (by simp) ?_
      intro c hc
      exact utf8EncodeChar_three (by omega) hthree hb hc
    . refine ⟨_, begin_four (by omega) hhigh, .more (by simp) ?_⟩
      intro b hb
      refine .more (by simp) ?_
      intro c hc
      refine .last (by simp) ?_
      intro d hd
      exact utf8EncodeChar_four (by omega) hhigh hb hc hd

theorem begin_decoded (byte : UInt8) :
    ∃ done rest, [byte] = done ++ rest ∧ Decoded done (begin byte).1 ∧ (begin byte).2.Holds rest := by
  by_cases hone : byte.toNat < 0x80
  . rw [begin_one hone]
    exact ⟨[byte], [], rfl, utf8EncodeChar_one hone ▸ .singleton _, .ready⟩
  . by_cases hlead : 0xC2 ≤ byte.toNat ∧ byte.toNat < 0xF5
    . obtain ⟨state, hbegin, hholds⟩ := begin_lead hlead.1 hlead.2
      rw [hbegin]
      exact ⟨[], [byte], rfl, .nil, hholds⟩
    . rw [begin_illFormed (by omega)]
      exact ⟨[byte], [], rfl, .illFormed (by simp), .ready⟩

theorem step_decoded (h : state.Holds part) (byte : UInt8) :
    ∃ done rest, part ++ [byte] = done ++ rest ∧ Decoded done (step state byte).1 ∧ (step state byte).2.Holds rest := by
  -- A byte that is not waited for settles the part as ill-formed and is then read for itself.
  have hreject (hne : part ≠ []) :
      ∃ done rest, part ++ [byte] = done ++ rest ∧ Decoded done (replacement :: (begin byte).1)
        ∧ (begin byte).2.Holds rest := by
    obtain ⟨done, rest, hbyte, hdone, hrest⟩ := begin_decoded byte
    exact ⟨part ++ done, rest, by rw [hbyte, List.append_assoc], hdone.replaced hne, hrest⟩
  cases h with
  | ready => exact begin_decoded byte
  | @last value low high _ hne h =>
    by_cases hbyte : low ≤ byte ∧ byte ≤ high
    . rw [step_last hbyte]
      exact ⟨_, [], (List.append_nil _).symm, h byte hbyte ▸ .singleton _, .ready⟩
    . rw [step, if_neg hbyte]
      exact hreject hne
  | @more value more low high _ hne h =>
    by_cases hbyte : low ≤ byte ∧ byte ≤ high
    . rw [step_more hbyte]
      exact ⟨[], _, rfl, .nil, h byte hbyte⟩
    . rw [step, if_neg hbyte]
      exact hreject hne

theorem run_decoded (h : state.Holds part) (data : Bytes) :
    ∃ done rest, part ++ data = done ++ rest ∧ Decoded done (run state data).1 ∧ (run state data).2.Holds rest := by
  induction data generalizing state part with
  | nil => exact ⟨[], part, by simp, .nil, h⟩
  | cons byte data ih =>
    obtain ⟨done, rest, hstep, hdone, hrest⟩ := step_decoded h byte
    obtain ⟨done', rest', hrun, hdone', hrest'⟩ := ih hrest
    refine ⟨done ++ done', rest', ?_, hdone.append hdone', hrest'⟩
    rw [List.append_cons, hstep, List.append_assoc, hrun, List.append_assoc]

theorem State.Holds.decoded_close (h : state.Holds part) : Decoded part state.close := by
  cases h with
  | ready => exact .nil
  | last hne => exact .illFormed hne
  | more hne => exact .illFormed hne

theorem decoded_decode (data : Bytes) : Decoded data (decode data) := by
  obtain ⟨done, rest, hdata, hdone, hrest⟩ := run_decoded .ready data
  rw [List.nil_append] at hdata
  have h := hdone.append hrest.decoded_close
  rw [← hdata] at h
  exact h

theorem length_decode_le (data : Bytes) : (decode data).length ≤ data.length := (decoded_decode data).length_le

theorem lineFeed_not_mem_decode (h : 0x0A ∉ data) : '\n' ∉ decode data := by
  intro hmem
  have hsubset := (decoded_decode data).subset_of_mem hmem (by decide)
  exact h (hsubset (by decide))

theorem decode_ne_nil (h : data ≠ []) : decode data ≠ [] := (decoded_decode data).text_ne_nil h

theorem getLast?_decode_ne_return (h : data.getLast? ≠ some 0x0D) : (decode data).getLast? ≠ some '\r' := by
  intro hlast
  have hsuffix : [0x0D] <:+ data := (decoded_decode data).isSuffix_of_getLast? hlast (by decide)
  obtain ⟨front, rfl⟩ := hsuffix
  simp at h

end

end Utf8
end Excerpt
