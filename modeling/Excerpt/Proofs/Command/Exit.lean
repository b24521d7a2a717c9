import Excerpt.Command
import Excerpt.Proofs.CommandLine.Values
import Excerpt.Proofs.Run.Crash

/-!
This module contains how the command exits. Each way through it has an exit code of its own kind: misuse, help, an error
in the list or the delimiter, or a run. Only a run touches the inputs.
-/

namespace Excerpt

variable {program : Text} {arguments : List Text} {entry : Text → Entry} {ends : Ends} {args : Arguments}

theorem command_of_halt {halt : Halt} (h : Arguments.parse arguments = .error halt) :
    command program arguments entry ends = halt.exit program ends.sink := by
  simp only [command, h]

theorem command_of_configure_error {e : ConfigurationError} (hargs : Arguments.parse arguments = .ok args)
    (h : args.configure = .error e) : command program arguments entry ends = e.exit program := by
  simp only [command, hargs, h]

theorem command_of_configure {configuration : Configuration} (hargs : Arguments.parse arguments = .ok args)
    (h : args.configure = .ok configuration) :
    command program arguments entry ends
      = (Run.ofNames configuration.extraction program entry ends configuration.files).exit := by
  simp only [command, hargs, h]

theorem command_of_not_configured
    (h : ∀ args configuration, Arguments.parse arguments = .ok args → args.configure ≠ .ok configuration)
    (entry' : Text → Entry) (stdin' : Source) :
    command program arguments entry' ⟨stdin', ends.sink⟩ = command program arguments entry ends := by
  cases hparse : Arguments.parse arguments with
  | error halt => rw [command_of_halt hparse, command_of_halt hparse]
  | ok args =>
    cases hconfigure : args.configure with
    | error e => rw [command_of_configure_error hparse hconfigure, command_of_configure_error hparse hconfigure]
    | ok configuration => exact absurd hconfigure (h args configuration hparse)

theorem inputNames_of_configure {configuration : Configuration} (hargs : Arguments.parse arguments = .ok args)
    (h : args.configure = .ok configuration) : inputNames arguments = configuration.files := by
  simp only [inputNames, hargs, h]

theorem Halt.exit_help {sink : Sink} {room : Option (Fault WriteFault)} (h : Fault.attempt sink.fault = .ok room) :
    Halt.help.exit program sink = ⟨.code 0, helpText program, []⟩ := by
  simp only [Halt.exit, h]

theorem ConfigurationError.exit_of_ne_crash {e : ConfigurationError} (h : ∀ c, e ≠ .crash c) :
    e.exit program = ⟨.code 1, [], program ++ ": ".toList ++ e.message ++ ['\n']⟩ := by
  cases e with
  | selection e => rfl
  | delimiter e => rfl
  | crash c => exact absurd rfl (h c)

namespace Run

variable {run : Run} {x : Extraction} {names : List Text}

theorem ending_of_ne_crash (h : ∀ c, run.abort ≠ some (.crash c)) : run.ending = .code 0 ∨ run.ending = .code 1 := by
  unfold ending
  cases habort : run.abort with
  | none =>
    by_cases hdiagnostics : run.diagnostics = []
    . simp [status, hdiagnostics]
    . simp [status, hdiagnostics]
  | some abort =>
    cases abort with
    | brokenPipe => exact .inr rfl
    | interrupted => exact .inr rfl
    | crash c => exact absurd habort (h c)

theorem ending_eq_zero : run.ending = .code 0 ↔ run.abort = none ∧ run.diagnostics = [] := by
  unfold ending
  cases habort : run.abort with
  | none => simp [status]
  | some abort => cases abort <;> simp

theorem clean_iff (h : ∀ c, (ofNames x program entry ends names).abort ≠ some (.crash c)) :
    (ofNames x program entry ends names).abort = none ∧ (ofNames x program entry ends names).diagnostics = []
      ↔ (ofNames x program entry ends names).abort ≠ some .brokenPipe
        ∧ (ofNames x program entry ends names).abort ≠ some .interrupted
        ∧ (turns x entry ends names).map Turn.name = names
        ∧ ∀ turn ∈ turns x entry ends names, turn.diagnostics x program entry = [] := by
  have hdiagnostics : (ofNames x program entry ends names).diagnostics = []
      ↔ ∀ turn ∈ turns x entry ends names, turn.diagnostics x program entry = [] := by
    rw [ofNames_eq_ofTurns]
    exact List.flatMap_eq_nil_iff
  rw [hdiagnostics]
  constructor
  . rintro ⟨habort, hquiet⟩
    exact ⟨by simp [habort], by simp [habort], map_name_turns habort, hquiet⟩
  . rintro ⟨hbrokenPipe, hinterrupted, _, hquiet⟩
    refine ⟨?_, hquiet⟩
    cases habort : (ofNames x program entry ends names).abort with
    | none => rfl
    | some abort =>
      cases abort with
      | brokenPipe => exact absurd habort hbrokenPipe
      | interrupted => exact absurd habort hinterrupted
      | crash c => exact absurd habort (h c)

end Run

theorem command_cases (program : Text) (arguments : List Text) (entry : Text → Entry) (ends : Ends)
    (hnames : ∀ name ∈ inputNames arguments, '\x00' ∉ name)
    (hattached : ∀ tokens, Token.classifyAll arguments = .ok tokens →
      ∀ s spelling, .switch s spelling (some ['-', '-']) ∉ tokens)
    (hhelp : Arguments.parse arguments = .error .help → ∃ room, Fault.attempt ends.sink.fault = .ok room) :
    (Arguments.parse arguments = .error .help
        ∧ command program arguments entry ends = ⟨.code 0, helpText program, []⟩)
      ∨ (∃ e, Arguments.parse arguments = .error (.misuse e)
        ∧ command program arguments entry ends = ⟨.code 2, [], e.report program⟩)
      ∨ (∃ args e, Arguments.parse arguments = .ok args ∧ args.configure = .error e ∧ (∀ c, e ≠ .crash c)
        ∧ command program arguments entry ends = ⟨.code 1, [], program ++ ": ".toList ++ e.message ++ ['\n']⟩)
      ∨ ∃ args configuration, Arguments.parse arguments = .ok args ∧ args.configure = .ok configuration
        ∧ (∀ c, (Run.ofNames configuration.extraction program entry ends configuration.files).abort
            ≠ some (.crash c))
        ∧ command program arguments entry ends
          = (Run.ofNames configuration.extraction program entry ends configuration.files).exit := by
  cases hparse : Arguments.parse arguments with
  | error halt =>
    cases halt with
    | help =>
      obtain ⟨room, hroom⟩ := hhelp hparse
      exact .inl ⟨rfl, (command_of_halt hparse).trans (Halt.exit_help hroom)⟩
    | misuse e => exact .inr (.inl ⟨e, rfl, command_of_halt hparse⟩)
  | ok args =>
    rcases Arguments.configure_of_parse hattached hparse with ⟨e, herror, hcrash⟩ | ⟨configuration, hok, hx⟩
    . refine .inr (.inr (.inl ⟨args, e, rfl, herror, hcrash, ?_⟩))
      rw [command_of_configure_error hparse herror, ConfigurationError.exit_of_ne_crash hcrash]
    . rw [inputNames_of_configure hparse hok] at hnames
      have hcrash := Run.abort_ne_crash program entry ends hx hnames
      exact .inr (.inr (.inr ⟨args, configuration, rfl, hok, hcrash, command_of_configure hparse hok⟩))

theorem command_exit (program : Text) (arguments : List Text) (entry : Text → Entry) (ends : Ends)
    (hnames : ∀ name ∈ inputNames arguments, '\x00' ∉ name)
    (hattached : ∀ tokens, Token.classifyAll arguments = .ok tokens →
      ∀ s spelling, .switch s spelling (some ['-', '-']) ∉ tokens)
    (hhelp : Arguments.parse arguments = .error .help → ∃ room, Fault.attempt ends.sink.fault = .ok room) :
    let exit := command program arguments entry ends
    (exit.ending = .code 0 ∨ exit.ending = .code 1 ∨ exit.ending = .code 2)
      ∧ (exit.ending = .code 2 ↔ ∃ e, Arguments.parse arguments = .error (.misuse e))
      ∧ (exit.ending = .code 0 ↔
          Arguments.parse arguments = .error .help
            ∨ ∃ args configuration,
                Arguments.parse arguments = .ok args
                  ∧ args.configure = .ok configuration
                  ∧ (let x := configuration.extraction
                    let run := Run.ofNames x program entry ends configuration.files
                    let turns := Run.turns x entry ends configuration.files
                    run.abort ≠ some .brokenPipe
                      ∧ run.abort ≠ some .interrupted
                      ∧ turns.map Turn.name = configuration.files
                      ∧ ∀ turn ∈ turns, turn.diagnostics x program entry = []))
      ∧ (∀ e, Arguments.parse arguments = .error (.misuse e) → exit = ⟨.code 2, [], e.report program⟩)
      ∧ (∀ args e, Arguments.parse arguments = .ok args → args.configure = .error e →
          (∀ c, e ≠ .crash c)
            ∧ exit = ⟨.code 1, [], program ++ ": ".toList ++ e.message ++ ['\n']⟩)
      ∧ ((∀ args configuration, Arguments.parse arguments = .ok args → args.configure ≠ .ok configuration) →
          ∀ entry' stdin', command program arguments entry' ⟨stdin', ends.sink⟩ = exit) := by
  intro exit
  have hidle : (∀ args configuration, Arguments.parse arguments = .ok args → args.configure ≠ .ok configuration) →
      ∀ entry' stdin', command program arguments entry' ⟨stdin', ends.sink⟩ = exit := command_of_not_configured
  rcases command_cases program arguments entry ends hnames hattached hhelp with ⟨hparse, hexit⟩ | ⟨e, hparse, hexit⟩
    | ⟨args, e, hparse, herror, hcrash, hexit⟩ | ⟨args, configuration, hparse, hok, hcrash, hexit⟩
  . have hending : exit.ending = .code 0 := congrArg Exit.ending hexit
    exact ⟨by simp [hending], by simp [hending, hparse], by simp [hending, hparse], by simp [hparse], by simp [hparse],
      hidle⟩
  . have hending : exit.ending = .code 2 := congrArg Exit.ending hexit
    refine ⟨by simp [hending], by simp [hending, hparse], by simp [hending, hparse], ?_, by simp [hparse], hidle⟩
    intro e' he
    cases hparse.symm.trans he
    exact hexit
  . have hending : exit.ending = .code 1 := congrArg Exit.ending hexit
    refine ⟨by simp [hending], by simp [hending, hparse], by simp [hending, hparse, herror], by simp [hparse], ?_,
      hidle⟩
    intro args' e' hargs he
    cases hparse.symm.trans hargs
    cases herror.symm.trans he
    exact ⟨hcrash, hexit⟩
  . have hending : exit.ending = (Run.ofNames configuration.extraction program entry ends configuration.files).ending :=
      congrArg Exit.ending hexit
    refine ⟨?_, ?_, ?_, by simp [hparse], ?_, hidle⟩
    . rcases Run.ending_of_ne_crash hcrash with h | h
      . exact .inl (hending.trans h)
      . exact .inr (.inl (hending.trans h))
    . rcases Run.ending_of_ne_crash hcrash with h | h
      . simp [hending, h, hparse]
      . simp [hending, h, hparse]
    . rw [hending, Run.ending_eq_zero, Run.clean_iff hcrash]
      constructor
      . intro hclean
        exact .inr ⟨args, configuration, hparse, hok, hclean⟩
      . rintro (hhalt | ⟨args', configuration', hargs, hok', hclean⟩)
        . cases hparse.symm.trans hhalt
        . cases hparse.symm.trans hargs
          cases hok.symm.trans hok'
          exact hclean
    . intro args' e' hargs he
      cases hparse.symm.trans hargs
      cases hok.symm.trans he

theorem command_exit_comma :
    let arguments := ["-f1".toList, "-d,".toList, "-".toList]
    let ends : Ends := ⟨.ofBytes (Utf8.encode "a,b\nc\n".toList), ⟨some ⟨2, .brokenPipe⟩⟩⟩
    (∀ name ∈ inputNames arguments, '\x00' ∉ name)
      ∧ (∀ tokens, Token.classifyAll arguments = .ok tokens →
          ∀ s spelling, .switch s spelling (some ['-', '-']) ∉ tokens)
      ∧ (Arguments.parse arguments = .error .help → ∃ room, Fault.attempt ends.sink.fault = .ok room)
      ∧ (command "cut".toList arguments (fun _ => .directory) ends).ending = .code 0 := by
  have hparse : Arguments.parse ["-f1".toList, "-d,".toList, "-".toList]
      = .ok (.ofList .fields (.text ['1']) (.text [',']) ["-".toList]) := by cbv
  have hconfigure : Arguments.configure (.ofList .fields (.text ['1']) (.text [',']) ["-".toList])
      = .ok ⟨⟨.fields [','], [⟨0, 1⟩]⟩, ["-".toList]⟩ := rfl
  have htokens : Token.classifyAll ["-f1".toList, "-d,".toList, "-".toList]
      = .ok [.switch (.list .fields) .short (some ['1']), .switch .delimiter .short (some [',']), .operand ['-']] := by
    cbv
  have hturns : Run.turns ⟨.fields [','], [⟨0, 1⟩]⟩ (fun _ => .directory)
      ⟨.ofBytes (Utf8.encode "a,b\nc\n".toList), ⟨some ⟨2, .brokenPipe⟩⟩⟩ ["-".toList]
      = [⟨"-".toList, ⟨.ofBytes (Utf8.encode "a,b\nc\n".toList), ⟨some ⟨2, .brokenPipe⟩⟩⟩⟩] := by
    decide +kernel
  have habort : (Run.ofNames ⟨.fields [','], [⟨0, 1⟩]⟩ "cut".toList (fun _ => .directory)
      ⟨.ofBytes (Utf8.encode "a,b\nc\n".toList), ⟨some ⟨2, .brokenPipe⟩⟩⟩ ["-".toList]).abort = none := by
    decide +kernel
  have hquiet : Turn.diagnostics ⟨.fields [','], [⟨0, 1⟩]⟩ "cut".toList (fun _ => .directory)
      ⟨"-".toList, ⟨.ofBytes (Utf8.encode "a,b\nc\n".toList), ⟨some ⟨2, .brokenPipe⟩⟩⟩⟩ = [] := by
    decide +kernel
  intro arguments ends
  have hnames : ∀ name ∈ inputNames arguments, '\x00' ∉ name := by
    rw [inputNames_of_configure hparse hconfigure]
    decide
  have hattached : ∀ tokens, Token.classifyAll arguments = .ok tokens →
      ∀ s spelling, .switch s spelling (some ['-', '-']) ∉ tokens := by
    intro tokens h
    rw [htokens, Except.ok.injEq] at h
    subst h
    simp
  have hhelp : Arguments.parse arguments = .error .help → ∃ room, Fault.attempt ends.sink.fault = .ok room :=
    fun _ => ⟨_, rfl⟩
  refine ⟨hnames, hattached, hhelp, ?_⟩
  refine (command_exit _ _ _ _ hnames hattached hhelp).2.2.1.mpr (.inr ⟨_, _, hparse, hconfigure, ?_⟩)
  refine ⟨by rw [habort]; simp, by rw [habort]; simp, by rw [hturns]; rfl, ?_⟩
  rw [hturns]
  intro turn hturn
  rw [List.mem_singleton.mp hturn]
  exact hquiet

end Excerpt
