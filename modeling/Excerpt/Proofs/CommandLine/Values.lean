import Excerpt.CommandLine.Parser
import Excerpt.Proofs.CommandLine.Tokens

/-!
This module contains what becomes of the values that switches are given. One list comes out of the arguments, and
whatever is true of all attached values and of all operands is true of that list, and of the delimiter if one is given.
Values that are texts give a configuration, or an error in the list or in the delimiter.
-/

namespace Excerpt

def Arguments.ofList (kind : ListKind) (list delimiter : Value) (files : List Text) : Arguments where
  bytes := if kind = .bytes then some list else none
  chars := if kind = .chars then some list else none
  fields := if kind = .fields then some list else none
  delimiter := delimiter
  files := files

def ListKind.mode (kind : ListKind) (delimiter : Text) : Mode :=
  match kind with
  | .bytes => .bytes
  | .chars => .chars
  | .fields => .fields delimiter

def Token.AllValues (P : Value → Prop) : Token → Prop
  | .operand text => P (.text text)
  | .switch _ _ (some value) => P (.ofAttached value)
  | .switch _ _ none | .terminator | .unknown _ => True

namespace Progress

structure AllValues (P : Value → Prop) (p : Progress) : Prop where
  list : ∀ kind value, p.list = some (kind, value) → P value
  delimiter : p.delimiter = .text ['\t'] ∨ P p.delimiter

section

variable {P : Value → Prop} {p q : Progress} {text : Text} {s : Switch} {value : Value} {tokens : List Token}

@[simp]
theorem list_operand : (p.operand text).list = p.list := by
  unfold operand
  split <;> rfl

@[simp]
theorem delimiter_operand : (p.operand text).delimiter = p.delimiter := by
  unfold operand
  split <;> rfl

@[simp]
theorem list_terminator : p.terminator.list = p.list := by
  unfold terminator
  split <;> rfl

@[simp]
theorem delimiter_terminator : p.terminator.delimiter = p.delimiter := by
  unfold terminator
  split <;> rfl

theorem assign_eq_ok (h : p.assign s value = .ok q) :
    (s = .delimiter ∧ q = { p with operands := p.operands.close, delimiter := value })
      ∨ ∃ kind, s = .list kind ∧ q = { p with operands := p.operands.close, list := some (kind, value) } := by
  cases s with
  | help => cases h
  | delimiter =>
    cases h
    exact .inl ⟨rfl, rfl⟩
  | list kind =>
    refine .inr ⟨kind, rfl, ?_⟩
    unfold assign at h
    cases hlist : p.list with
    | none =>
      simp only [hlist, Except.ok.injEq] at h
      exact h.symm
    | some earlier =>
      simp only [hlist] at h
      split at h
      . exact (Except.ok.inj h).symm
      . cases h

theorem AllValues.of_eq (h : p.AllValues P) (hlist : q.list = p.list) (hdelimiter : q.delimiter = p.delimiter) :
    q.AllValues P where
  list := by
    rw [hlist]
    exact h.list
  delimiter := by
    rw [hdelimiter]
    exact h.delimiter

theorem AllValues.assign (h : p.AllValues P) (hvalue : P value) (hq : p.assign s value = .ok q) : q.AllValues P := by
  rcases assign_eq_ok hq with ⟨_, rfl⟩ | ⟨kind, _, rfl⟩
  . exact ⟨h.list, .inr hvalue⟩
  . refine ⟨?_, h.delimiter⟩
    intro kind' value' heq
    cases heq
    exact hvalue

theorem AllValues.read (h : p.AllValues P) (htokens : ∀ token ∈ tokens, token.AllValues P)
    (hq : p.read tokens = .ok q) : q.AllValues P := by
  fun_induction Progress.read p tokens with
  | case1 p =>
    cases hq
    exact h
  | case2 p text tokens ih =>
    exact ih (h.of_eq list_operand delimiter_operand) (List.forall_mem_cons.mp htokens).2 hq
  | case3 p tokens ih =>
    exact ih (h.of_eq list_terminator delimiter_terminator) (List.forall_mem_cons.mp htokens).2 hq
  | case4 p text tokens ih => exact ih (h.of_eq rfl rfl) (List.forall_mem_cons.mp htokens).2 hq
  | case5 => cases hq
  | case6 => cases hq
  | case7 p s spelling value tokens _ next hnext ih =>
    obtain ⟨hvalue, hmore⟩ := List.forall_mem_cons.mp htokens
    exact ih (h.assign hvalue hnext) hmore hq
  | case8 => cases hq
  | case9 p s spelling value tokens _ next hnext ih =>
    -- The operand behind the switch is its value.
    obtain ⟨hvalue, hmore⟩ := List.forall_mem_cons.mp (List.forall_mem_cons.mp htokens).2
    exact ih (h.assign hvalue hnext) hmore hq
  | case10 => cases hq

theorem finish_eq_ok {args : Arguments} (h : p.finish = .ok args) :
    ∃ kind list, p.list = some (kind, list)
      ∧ args = .ofList kind list p.delimiter (if p.operands.names = [] then [['-']] else p.operands.names) := by
  unfold finish at h
  split at h
  . cases h
  . next kind list hlist =>
    split at h
    . exact ⟨kind, list, hlist, (Except.ok.inj h).symm⟩
    . cases h

end

end Progress

namespace Arguments

theorem parse_eq_ok {arguments : List Text} {args : Arguments} (h : parse arguments = .ok args) :
    ∃ tokens p, Token.classifyAll arguments = .ok tokens ∧ Progress.read {} tokens = .ok p ∧ p.finish = .ok args := by
  unfold parse at h
  split at h
  . cases h
  . next tokens htokens =>
    split at h
    . cases h
    . next p hp => exact ⟨tokens, p, htokens, hp, h⟩

theorem parse_allValues {P : Value → Prop} {arguments : List Text} {args : Arguments}
    (htokens : ∀ tokens, Token.classifyAll arguments = .ok tokens → ∀ token ∈ tokens, token.AllValues P)
    (h : parse arguments = .ok args) :
    ∃ kind list delimiter files, args = .ofList kind list delimiter files ∧ P list
      ∧ (delimiter = .text ['\t'] ∨ P delimiter) := by
  obtain ⟨tokens, p, hclassify, hread, hfinish⟩ := parse_eq_ok h
  obtain ⟨kind, list, hlist, rfl⟩ := Progress.finish_eq_ok hfinish
  have hbegin : Progress.AllValues P {} := ⟨by simp, .inl rfl⟩
  have hvalues := hbegin.read (htokens tokens hclassify) hread
  exact ⟨kind, list, p.delimiter, _, rfl, hvalues.list kind list hlist, hvalues.delimiter⟩

section

variable {kind : ListKind} {list delimiter : Text} {selection : Selection} {files : List Text}

theorem configure_of_selection_error {e : SelectionError} (h : Selection.parse list = .error e) (delimiter : Value) :
    (ofList kind (.text list) delimiter files).configure = .error (.selection e) := by
  cases kind <;> simp [ofList, configure, configure.plain, Value.selection_of_error h]

theorem configure_of_ne_fields (hkind : kind ≠ .fields) (h : Selection.parse list = .ok selection)
    (delimiter : Value) (d : Text) :
    (ofList kind (.text list) delimiter files).configure = .ok ⟨⟨kind.mode d, selection⟩, files⟩ := by
  cases kind with
  | bytes => simp [ofList, configure, configure.plain, Value.selection_of_ok h, ListKind.mode]
  | chars => simp [ofList, configure, configure.plain, Value.selection_of_ok h, ListKind.mode]
  | fields => exact absurd rfl hkind

theorem configure_of_fields (h : Selection.parse list = .ok selection) :
    (ofList .fields (.text list) (.text delimiter) files).configure
      = match checkDelimiter delimiter with
        | .error e => .error (.delimiter e)
        | .ok d => .ok ⟨⟨.fields d, selection⟩, files⟩ := by
  cases hdelimiter : checkDelimiter delimiter with
  | error e => simp [ofList, configure, Value.selection_of_ok h, Value.delimiter_of_error hdelimiter]
  | ok d => simp [ofList, configure, Value.selection_of_ok h, Value.delimiter_of_ok hdelimiter]

end

theorem configure_ofList_text (kind : ListKind) (list delimiter : Text) (files : List Text) :
    let args := ofList kind (.text list) (.text delimiter) files
    (∃ e, args.configure = .error e ∧ ∀ c, e ≠ .crash c)
      ∨ ∃ mode selection, args.configure = .ok ⟨⟨mode, selection⟩, files⟩ ∧ ∀ name, mode ≠ .unknown name := by
  intro args
  cases hlist : Selection.parse list with
  | error e => exact .inl ⟨.selection e, configure_of_selection_error hlist _, by simp⟩
  | ok selection =>
    by_cases hkind : kind = .fields
    . subst hkind
      have hargs : args.configure = _ := configure_of_fields hlist
      cases hdelimiter : checkDelimiter delimiter with
      | error e => exact .inl ⟨.delimiter e, by rw [hargs, hdelimiter], by simp⟩
      | ok d => exact .inr ⟨.fields d, selection, by rw [hargs, hdelimiter], by simp⟩
    . refine .inr ⟨kind.mode delimiter, selection, configure_of_ne_fields hkind hlist _ _, ?_⟩
      cases kind <;> simp [ListKind.mode]

section

variable {arguments : List Text} {args : Arguments}

theorem parse_values
    (hattached : ∀ tokens, Token.classifyAll arguments = .ok tokens →
      ∀ s spelling, .switch s spelling (some ['-', '-']) ∉ tokens)
    (h : parse arguments = .ok args) :
    ∃ kind list delimiter files, args = ofList kind (.text list) (.text delimiter) files
      ∧ (∃ argument ∈ arguments, list <:+ argument)
      ∧ (delimiter = ['\t'] ∨ ∃ argument ∈ arguments, delimiter <:+ argument) := by
  have htokens : ∀ tokens, Token.classifyAll arguments = .ok tokens →
      ∀ token ∈ tokens, token.AllValues fun value =>
        ∃ text, value = .text text ∧ ∃ argument ∈ arguments, text <:+ argument := by
    intro tokens hclassify token htoken
    obtain ⟨argument, hargument, hof⟩ := Token.exists_of_mem_classifyAll hclassify htoken
    cases token with
    | operand text => exact ⟨text, rfl, argument, hargument, hof ▸ List.suffix_refl _⟩
    | terminator => trivial
    | unknown text => trivial
    | switch s spelling value =>
      cases value with
      | none => trivial
      | some value =>
        refine ⟨value, if_neg ?_, argument, hargument, hof value rfl⟩
        rintro rfl
        exact hattached tokens hclassify s spelling htoken
  obtain ⟨kind, _, given, files, rfl, ⟨list, rfl, hlist⟩, hgiven⟩ := parse_allValues htokens h
  rcases hgiven with rfl | ⟨delimiter, rfl, hdelimiter⟩
  . exact ⟨kind, list, ['\t'], files, rfl, hlist, .inl rfl⟩
  . exact ⟨kind, list, delimiter, files, rfl, hlist, .inr hdelimiter⟩

theorem configure_of_parse
    (hattached : ∀ tokens, Token.classifyAll arguments = .ok tokens →
      ∀ s spelling, .switch s spelling (some ['-', '-']) ∉ tokens)
    (h : parse arguments = .ok args) :
    (∃ e, args.configure = .error e ∧ ∀ c, e ≠ .crash c)
      ∨ ∃ configuration,
          args.configure = .ok configuration ∧ ∀ name, configuration.extraction.mode ≠ .unknown name := by
  obtain ⟨kind, list, delimiter, files, rfl, _⟩ := parse_values hattached h
  rcases configure_ofList_text kind list delimiter files with herror | ⟨mode, selection, hok, hmode⟩
  . exact .inl herror
  . exact .inr ⟨_, hok, hmode⟩

end

end Arguments

end Excerpt
