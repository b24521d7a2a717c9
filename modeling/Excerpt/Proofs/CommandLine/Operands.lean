import Excerpt.Proofs.CommandLine.Values

/-!
This module contains where the names of the inputs come from. The operands that are names stand next to each other in
the arguments; of a terminator among them the first one is no name.
-/

namespace Excerpt

/--
The names so far are a run of the arguments read so far, and one that is going on reaches their end.
-/
def Operands.Within (seen : List Text) : Operands → Prop
  | .awaited => True
  | .running names => names <:+ seen
  | .ended names => names <:+: seen

namespace Operands

variable {operands : Operands} {seen : List Text}

theorem Within.isInfix (h : operands.Within seen) : operands.names <:+: seen := by
  cases operands with
  | awaited => exact List.nil_infix
  | running names => exact h.isInfix
  | ended names => exact h

theorem Within.close (h : operands.Within seen) (more : List Text) : operands.close.Within (seen ++ more) := by
  cases operands with
  | awaited => trivial
  | running names => exact h.isInfix.trans (List.prefix_append _ _).isInfix
  | ended names => exact h.trans (List.prefix_append _ _).isInfix

end Operands

namespace Progress

variable {p q : Progress} {seen arguments names texts : List Text} {s : Switch} {value : Value} {tokens : List Token}

theorem within_operand (h : p.operands.Within seen) (text : Text) :
    (p.operand text).operands.Within (seen ++ [text]) := by
  obtain ⟨list, delimiter, operands, leftover⟩ := p
  cases operands with
  | awaited => exact List.suffix_append _ _
  | running names =>
    obtain ⟨front, rfl⟩ := h
    exact ⟨front, (List.append_assoc _ _ _).symm⟩
  | ended names => exact h.trans (List.prefix_append _ _).isInfix

theorem within_assign (h : p.operands.Within seen) (hq : p.assign s value = .ok q) (more : List Text) :
    q.operands.Within (seen ++ more) := by
  rcases assign_eq_ok hq with ⟨_, rfl⟩ | ⟨kind, _, rfl⟩
  . exact h.close more
  . exact h.close more

theorem read_operands_of_running (h : p.operands = .running names) :
    p.read (texts.map .operand) = .ok { p with operands := .running (names ++ texts) } := by
  induction texts generalizing p names with
  | nil => simp [read, ← h]
  | cons text texts ih =>
    have hnext : p.operand text = { p with operands := .running (names ++ [text]) } := by simp [operand, h]
    rw [List.map_cons, read, hnext, ih rfl, List.append_assoc, List.singleton_append]

theorem read_operands_of_ended (h : p.operands = .ended names) :
    p.read (texts.map .operand) = .ok { p with leftover := p.leftover ++ texts } := by
  induction texts generalizing p with
  | nil => simp [read]
  | cons text texts ih =>
    have hnext : p.operand text = { p with leftover := p.leftover ++ [text] } := by simp [operand, h]
    rw [List.map_cons, read, hnext, ih, List.append_assoc, List.singleton_append]
    exact h

theorem names_of_read_terminator (hseen : terminatorText ∉ seen) (h : p.operands.Within seen)
    (hq : p.terminator.read (texts.map .operand) = .ok q) :
    ∃ run, run <:+: seen ++ terminatorText :: texts ∧ q.operands.names = run.erase terminatorText := by
  cases hoperands : p.operands with
  | awaited =>
    have hrunning : p.terminator.operands = .running [] := by simp [terminator, hoperands]
    rw [read_operands_of_running hrunning] at hq
    cases hq
    exact ⟨terminatorText :: texts, (List.suffix_append _ _).isInfix, (List.erase_cons_head _ _).symm⟩
  | running names =>
    have hrunning : p.terminator.operands = .running names := by simp [terminator, hoperands]
    rw [read_operands_of_running hrunning] at hq
    cases hq
    rw [hoperands] at h
    obtain ⟨front, rfl⟩ := h
    rw [List.mem_append, not_or] at hseen
    refine ⟨names ++ terminatorText :: texts, ⟨front, [], by simp⟩, ?_⟩
    rw [List.erase_append_right _ hseen.2, List.erase_cons_head]
    rfl
  | ended names =>
    have hended : p.terminator.operands = .ended names := by simp [terminator, hoperands]
    rw [read_operands_of_ended hended] at hq
    cases hq
    rw [hoperands] at h
    refine ⟨names, h.trans (List.prefix_append _ _).isInfix, ?_⟩
    rw [List.erase_of_not_mem fun hmem => hseen (h.subset hmem)]
    exact congrArg Operands.names hended

theorem names_of_read (hclassify : Token.classifyAll arguments = .ok tokens) (hseen : terminatorText ∉ seen)
    (h : p.operands.Within seen) (hq : p.read tokens = .ok q) :
    ∃ run, run <:+: seen ++ arguments ∧ q.operands.names = run.erase terminatorText := by
  fun_induction Progress.read p tokens generalizing seen arguments with
  | case1 p =>
    cases hq
    rw [Token.classifyAll_eq_nil hclassify, List.append_nil]
    exact ⟨_, h.isInfix, (List.erase_of_not_mem fun hmem => hseen (h.isInfix.subset hmem)).symm⟩
  | case2 p text tokens ih =>
    obtain ⟨argument, more, rfl, hne, rfl, hmore⟩ := Token.classifyAll_eq_cons hclassify (by simp)
    rw [List.append_cons]
    exact ih hmore (by simp [hseen, hne.symm]) (within_operand h text) hq
  | case3 p tokens ih =>
    obtain ⟨more, rfl, rfl⟩ := Token.classifyAll_eq_terminator_cons hclassify
    exact names_of_read_terminator hseen h hq
  | case4 p text tokens ih =>
    obtain ⟨argument, more, rfl, hne, rfl, hmore⟩ := Token.classifyAll_eq_cons hclassify (by simp)
    rw [List.append_cons]
    exact ih hmore (by simp [hseen, hne.symm]) (h.close _) hq
  | case5 => cases hq
  | case6 => cases hq
  | case7 p s spelling value tokens _ next hnext ih =>
    obtain ⟨argument, more, rfl, hne, _, hmore⟩ := Token.classifyAll_eq_cons hclassify (by simp)
    rw [List.append_cons]
    exact ih hmore (by simp [hseen, hne.symm]) (within_assign h hnext _) hq
  | case8 => cases hq
  | case9 p s spelling value tokens _ next hnext ih =>
    -- The operand behind the switch is its value, so two arguments are read at once.
    obtain ⟨argument, more, rfl, hne, _, hmore⟩ := Token.classifyAll_eq_cons hclassify (by simp)
    obtain ⟨argument', more, rfl, hne', _, hmore⟩ := Token.classifyAll_eq_cons hmore (by simp)
    have happend : seen ++ argument :: argument' :: more = seen ++ [argument, argument'] ++ more := by simp
    rw [happend]
    exact ih hmore (by simp [hseen, hne.symm, hne'.symm]) (within_assign h hnext _) hq
  | case10 => cases hq

end Progress

namespace Arguments

theorem files_of_parse {arguments : List Text} {args : Arguments} (h : parse arguments = .ok args) :
    args.files ≠ []
      ∧ (args.files = [['-']] ∨ ∃ run, run <:+: arguments ∧ args.files = run.erase terminatorText) := by
  obtain ⟨tokens, p, hclassify, hread, hfinish⟩ := parse_eq_ok h
  have hbegin : Operands.Within [] Operands.awaited := trivial
  obtain ⟨run, hrun, hnames⟩ := Progress.names_of_read hclassify List.not_mem_nil hbegin hread
  obtain ⟨kind, list, _, rfl⟩ := Progress.finish_eq_ok hfinish
  simp only [ofList]
  split
  . exact ⟨by simp, .inl rfl⟩
  . next hne => exact ⟨hne, .inr ⟨run, hrun, hnames⟩⟩

theorem parse_provenance (arguments : List Text) (args : Arguments)
    (hattached : ∀ tokens, Token.classifyAll arguments = .ok tokens →
      ∀ s spelling, .switch s spelling (some ['-', '-']) ∉ tokens)
    (h : parse arguments = .ok args) :
    (∃ kind list delimiter files, args = ofList kind (.text list) (.text delimiter) files
        ∧ (∃ argument ∈ arguments, list <:+ argument)
        ∧ (delimiter = ['\t'] ∨ ∃ argument ∈ arguments, delimiter <:+ argument)
        ∧ files ≠ []
        ∧ (files = [['-']] ∨ ∃ run, run <:+: arguments ∧ files = run.erase ['-', '-']))
      ∧ ∀ c, args.configure ≠ .error (.crash c) := by
  obtain ⟨hne, hfiles⟩ := files_of_parse h
  refine ⟨?_, ?_⟩
  . obtain ⟨kind, list, delimiter, files, rfl, hlist, hdelimiter⟩ := parse_values hattached h
    exact ⟨kind, list, delimiter, files, rfl, hlist, hdelimiter, hne, hfiles⟩
  . intro c hcrash
    rcases configure_of_parse hattached h with ⟨e, herror, hquiet⟩ | ⟨configuration, hok, _⟩
    . cases hcrash.symm.trans herror
      exact hquiet c rfl
    . cases hcrash.symm.trans hok

theorem parse_provenance_terminator :
    let arguments := ["-f=1,2".toList, "--del".toList, ",".toList, "x".toList, "--".toList, "-b3".toList, "--".toList]
    let args := ofList .fields (.text "1,2".toList) (.text ",".toList) ["x".toList, "-b3".toList, "--".toList]
    (∀ tokens, Token.classifyAll arguments = .ok tokens →
        ∀ s spelling, .switch s spelling (some ['-', '-']) ∉ tokens)
      ∧ parse arguments = .ok args
      ∧ ∃ run, run <:+: arguments ∧ args.files = run.erase ['-', '-'] := by
  have htokens : Token.classifyAll
      ["-f=1,2".toList, "--del".toList, ",".toList, "x".toList, "--".toList, "-b3".toList, "--".toList]
      = .ok [.switch (.list .fields) .short (some "1,2".toList), .switch .delimiter .long none, .operand ",".toList,
        .operand "x".toList, .terminator, .operand "-b3".toList, .operand "--".toList] := by
    cbv
  have hparse : parse
      ["-f=1,2".toList, "--del".toList, ",".toList, "x".toList, "--".toList, "-b3".toList, "--".toList]
      = .ok (ofList .fields (.text "1,2".toList) (.text ",".toList) ["x".toList, "-b3".toList, "--".toList]) := by
    cbv
  intro arguments args
  have hattached : ∀ tokens, Token.classifyAll arguments = .ok tokens →
      ∀ s spelling, .switch s spelling (some ['-', '-']) ∉ tokens := by
    intro tokens h
    rw [htokens, Except.ok.injEq] at h
    subst h
    simp
  refine ⟨hattached, hparse, ?_⟩
  obtain ⟨⟨kind, list, delimiter, files, hargs, _, _, _, hfiles⟩, _⟩ :=
    parse_provenance arguments args hattached hparse
  have heq : args.files = files := congrArg Arguments.files hargs
  rcases hfiles with hdash | hrun
  . rw [← heq] at hdash
    simp [args, ofList] at hdash
  . rw [heq]
    exact hrun

end Arguments

end Excerpt
