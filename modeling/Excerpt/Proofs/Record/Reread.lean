import Excerpt.Delimiter
import Excerpt.Proofs.Line.Decoded
import Excerpt.Proofs.Record.Reading
import Excerpt.Proofs.Record.RoundTrip

/-!
This module contains what becomes of written records when their encoding is read again, line by line: every record
comes back, with a line feed for every pair of a carriage return and a line feed inside of its fields. A text that
leaves a quoted field open at each of its line feeds, but not at its end, is read as one record.
-/

namespace Excerpt

section

variable {delimiter text : Text} {fields : List Text} {n : Nat}

theorem Record.gathered_splitOn
    (hopen : ∀ part rest, text = part ++ '\n' :: rest → split delimiter part = .error .unterminatedQuote)
    (hsplit : split delimiter text = .ok fields) : Gathered delimiter (text.splitOn '\n') where
  ne_nil := List.splitOn_ne_nil '\n' text
  not_leavesOpen := by
    intro h
    rw [LeavesOpen, Text.ofLines_splitOn, hsplit] at h
    cases h
  leavesOpen := by
    intro front hfront hne hproper
    obtain ⟨back, hback⟩ := hfront
    have hbackne : back ≠ [] := by
      rintro rfl
      exact hproper (by simpa using hback)
    have htext : text = Text.ofLines front ++ '\n' :: Text.ofLines back := by
      rw [← Text.ofLines_append hne hbackne, hback, Text.ofLines_splitOn]
    exact hopen _ _ htext

theorem Reader.run_splitOn_append
    (hopen : ∀ part rest, text = part ++ '\n' :: rest → Record.split delimiter part = .error .unterminatedQuote)
    (hsplit : Record.split delimiter text = .ok fields) (lines : List Text) :
    run delimiter ⟨n, none⟩ (text.splitOn '\n' ++ lines)
      = (⟨n + 1, fields⟩ :: (run delimiter ⟨n + text.count '\n' + 1, none⟩ lines).1,
        (run delimiter ⟨n + text.count '\n' + 1, none⟩ lines).2) := by
  have hreads := Reads.of_gathered (n := n) (Record.gathered_splitOn hopen hsplit) (by rwa [Text.ofLines_splitOn])
  rw [Text.length_splitOn_lineFeed] at hreads
  exact hreads.run_append

end

namespace Record

def writeAll (delimiter : Text) (records : List (List Text)) : Text :=
  records.flatMap fun fields => write delimiter fields ++ ['\n']

/--
The fields of a record after it has been written and read again. No fields are written like one empty field.
-/
def reread (fields : List Text) : List Text :=
  if fields = [] then [[]] else fields.map Text.unifyBreaks

section

variable {d : Char} {field part rest : Text} {fields : List Text} {records : List (List Text)}

@[simp]
theorem writeAll_nil : writeAll [d] [] = [] := rfl

@[simp]
theorem writeAll_cons : writeAll [d] (fields :: records) = write [d] fields ++ '\n' :: writeAll [d] records := by
  simp [writeAll]

theorem head?_doubleQuotes_ne {c : Char} (hc : c ≠ '"') (h : field.head? ≠ some c) :
    (doubleQuotes field).head? ≠ some c := by
  cases field with
  | nil => simp [doubleQuotes]
  | cons e field =>
    by_cases he : e = '"'
    . rw [he, doubleQuotes_cons_quote]
      simpa using Ne.symm hc
    . rw [doubleQuotes_cons_of_ne he]
      simpa using h

theorem unifyBreaks_doubleQuotes : Text.unifyBreaks (doubleQuotes field) = doubleQuotes (Text.unifyBreaks field) := by
  fun_induction Text.unifyBreaks field with
  | case1 => rfl
  | case2 s ih =>
    rw [doubleQuotes_cons_of_ne (by decide), doubleQuotes_cons_of_ne (by decide), Text.unifyBreaks_return_lineFeed, ih,
      doubleQuotes_cons_of_ne (by decide)]
  | case3 c s hs ih =>
    by_cases hc : c = '"'
    . subst hc
      rw [doubleQuotes_cons_quote, Text.unifyBreaks_cons_of_ne (by decide), Text.unifyBreaks_cons_of_ne (by decide), ih,
        doubleQuotes_cons_quote]
    . rw [doubleQuotes_cons_of_ne hc, doubleQuotes_cons_of_ne hc, ← ih]
      by_cases hreturn : c = '\r'
      . apply Text.unifyBreaks_cons_of_head_ne
        apply head?_doubleQuotes_ne (by decide)
        intro hhead
        obtain ⟨s, rfl⟩ := List.head?_eq_some_iff.mp hhead
        exact hs s hreturn rfl
      . exact Text.unifyBreaks_cons_of_ne hreturn

theorem needsQuotes_unifyBreaks : needsQuotes [d] (Text.unifyBreaks field) = needsQuotes [d] field := by
  -- A carriage return is only lost in front of a line feed, which needs quotes as well.
  by_cases hfeed : '\n' ∈ field
  . have hfeed' : '\n' ∈ Text.unifyBreaks field := (Text.mem_unifyBreaks (by decide)).mpr hfeed
    rw [needsQuotes_singleton.mpr (.inr (.inr (.inl hfeed))), needsQuotes_singleton.mpr (.inr (.inr (.inl hfeed')))]
  . rw [Text.unifyBreaks_of_not_mem hfeed]

theorem unifyBreaks_writeField :
    Text.unifyBreaks (writeField [d] field) = writeField [d] (Text.unifyBreaks field) := by
  unfold writeField
  rw [needsQuotes_unifyBreaks]
  split
  . rw [Text.unifyBreaks_cons_of_ne (by decide), Text.unifyBreaks_append_cons (by decide) (by decide),
      unifyBreaks_doubleQuotes, Text.unifyBreaks_nil]
  . rfl

theorem unifyBreaks_write (hfeed : d ≠ '\n') (hreturn : d ≠ '\r') :
    Text.unifyBreaks (write [d] fields) = write [d] (fields.map Text.unifyBreaks) := by
  induction fields with
  | nil => rfl
  | cons field fields ih =>
    cases fields with
    | nil =>
      rw [List.map_singleton, write_singleton, write_singleton]
      exact unifyBreaks_writeField
    | cons next fields =>
      rw [List.map_cons, List.map_cons, write_cons_cons, write_cons_cons,
        Text.unifyBreaks_append_cons hreturn hfeed, unifyBreaks_writeField, ih, List.map_cons]

theorem write_reread (hfeed : d ≠ '\n') (hreturn : d ≠ '\r') :
    write [d] (reread fields) = Text.unifyBreaks (write [d] fields) := by
  unfold reread
  split
  . next hnil =>
    subst hnil
    rfl
  . rw [unifyBreaks_write hfeed hreturn]

theorem split_write_reread (hd : d ≠ '"') : split [d] (write [d] (reread fields)) = .ok (reread fields) := by
  apply split_write hd
  unfold reread
  split
  . simp
  . next hne => simpa using hne

theorem getLast?_writeField_ne_return : (writeField [d] field).getLast? ≠ some '\r' := by
  intro hlast
  unfold writeField at hlast
  split at hlast
  . rw [← List.cons_append, List.getLast?_concat] at hlast
    simp at hlast
  . next hquotes =>
    simp only [needsQuotes_singleton, not_or] at hquotes
    exact hquotes.2.2.2 (List.mem_of_getLast? hlast)

theorem getLast?_write_ne_return (hreturn : d ≠ '\r') : (write [d] fields).getLast? ≠ some '\r' := by
  induction fields with
  | nil => simp [write]
  | cons field fields ih =>
    cases fields with
    | nil =>
      rw [write_singleton]
      exact getLast?_writeField_ne_return
    | cons next fields =>
      rw [write_cons_cons, List.getLast?_append_of_ne_nil _ (by simp), List.getLast?_cons]
      intro hlast
      cases hwrite : (write [d] (next :: fields)).getLast? with
      | none => simp [hwrite, hreturn] at hlast
      | some c => simp_all

theorem writeField_eq_append_lineFeed (h : writeField [d] field = part ++ '\n' :: rest) :
    ∃ body value, QuotedBody body value ∧ part = '"' :: body := by
  unfold writeField at h
  split at h
  . cases part with
    | nil => simp at h
    | cons c part =>
      simp only [List.cons_append, List.cons.injEq] at h
      obtain ⟨rfl, hbody⟩ := h
      obtain ⟨value, hpart⟩ := (quotedBody_doubleQuotes field).of_closed_append_cons hbody (by decide)
      exact ⟨part, value, hpart, rfl⟩
  -- A field that is written without quotes has no line feed.
  . next hquotes =>
    simp only [needsQuotes_singleton, not_or] at hquotes
    exact absurd (by simp [h]) hquotes.2.2.1

theorem split_write_part (hd : d ≠ '"') (hfeed : d ≠ '\n') (h : write [d] fields = part ++ '\n' :: rest) :
    split [d] part = .error .unterminatedQuote := by
  induction fields generalizing part with
  | nil => simp [write] at h
  | cons field fields ih =>
    cases fields with
    | nil =>
      rw [write_singleton] at h
      obtain ⟨body, value, hbody, rfl⟩ := writeField_eq_append_lineFeed h
      exact hbody.split_eq_error
    | cons next fields =>
      rw [write_cons_cons] at h
      -- The part ends behind the first field or inside of it.
      rcases List.append_eq_append_iff.mp h with ⟨more, rfl, hmore⟩ | ⟨more, hfield, hmore⟩
      . cases more with
        | nil =>
          simp only [List.nil_append, List.cons.injEq] at hmore
          exact absurd hmore.1 hfeed
        | cons c more =>
          simp only [List.cons_append, List.cons.injEq] at hmore
          obtain ⟨rfl, hmore⟩ := hmore
          rw [(rawField_writeField d field).split_append hd, ih hmore]
          rfl
      . cases more with
        | nil =>
          simp only [List.nil_append, List.cons.injEq] at hmore
          exact absurd hmore.1.symm hfeed
        | cons c more =>
          simp only [List.cons_append, List.cons.injEq] at hmore
          obtain ⟨rfl, _⟩ := hmore
          obtain ⟨body, value, hbody, rfl⟩ := writeField_eq_append_lineFeed hfield
          exact hbody.split_eq_error

theorem run_texts_encode_writeAll (hd : d ≠ '"') (hfeed : d ≠ '\n') (hreturn : d ≠ '\r') (n : Nat)
    (records : List (List Text)) :
    Reader.run [d] ⟨n, none⟩ (Line.texts (Utf8.encode (writeAll [d] records)))
      = (records.mapIdx fun k fields =>
          ⟨n + 1 + (writeAll [d] (records.take k)).count '\n', reread fields⟩, none) := by
  induction records generalizing n with
  | nil => rfl
  | cons fields records ih =>
    have hopen : ∀ part rest, write [d] (reread fields) = part ++ '\n' :: rest
        → split [d] part = .error .unterminatedQuote := by
      intro part rest hpart
      exact split_write_part hd hfeed hpart
    rw [writeAll_cons, Line.texts_encode_append (getLast?_write_ne_return hreturn), ← write_reread hfeed hreturn,
      Reader.run_splitOn_append hopen (split_write_reread hd), ih, List.mapIdx_cons]
    have hcount : (write [d] (reread fields)).count '\n' = (write [d] fields).count '\n' := by
      rw [write_reread hfeed hreturn, Text.count_lineFeed_unifyBreaks]
    simp [hcount, Nat.add_assoc, Nat.add_comm, Nat.add_left_comm]

end

theorem readAll_texts_encode_writeAll {delimiter checked : Text} (h : checkDelimiter delimiter = .ok checked)
    (records : List (List Text)) :
    readAll checked (Line.texts (Utf8.encode (writeAll checked records)))
        = (records.mapIdx fun k fields =>
            ⟨1 + (writeAll checked (records.take k)).count '\n', reread fields⟩, none)
      ∧ ∀ field, (∀ before after, field ≠ before ++ '\r' :: '\n' :: after) → Text.unifyBreaks field = field := by
  obtain ⟨d, rfl, rfl, hd, hfeed, hreturn⟩ := checkDelimiter_eq_ok h
  refine ⟨?_, ?_⟩
  . have hrun := run_texts_encode_writeAll hd hfeed hreturn 0 records
    rw [Nat.zero_add] at hrun
    exact hrun
  . intro field hfield
    exact Text.unifyBreaks_eq_self hfield

theorem readAll_texts_encode_writeAll_colon :
    checkDelimiter [':'] = .ok [':']
      ∧ readAll [':'] (Line.texts (Utf8.encode (writeAll [':'] [[['\r', '\n', ':'], ['\r']], [], [['"', 'é']]])))
          = ([⟨1, [['\n', ':'], ['\r']]⟩, ⟨3, [[]]⟩, ⟨4, [['"', 'é']]⟩], none) := by
  have hcolon : checkDelimiter [':'] = .ok [':'] := rfl
  refine ⟨hcolon, ?_⟩
  rw [(readAll_texts_encode_writeAll hcolon _).1]
  rfl

end Record
end Excerpt
