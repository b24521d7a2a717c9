import Excerpt.CommandLine.Usage
import Excerpt.Run

/-!
This module contains the command as a whole: from its arguments and the world it runs in to what it prints and how
it ends.
-/

namespace Excerpt

inductive Ending
  | code (n : Nat)
  | crash (c : Crash)
  deriving DecidableEq, Repr

structure Exit where
  ending : Ending
  stdout : Text := []
  stderr : Text := []
  deriving DecidableEq, Repr

def baseName (path : Text) : Text := (path.reverse.takeWhile (· ≠ '/')).reverse

def Halt.exit (program : Text) (sink : Sink) : Halt → Exit
  | .help =>
    -- The help text is one write.
    match Fault.attempt sink.fault with
    | .error kind => { ending := .crash (.helpUnwritten kind) }
    | .ok _ => { ending := .code 0, stdout := helpText program }
  | .misuse e => { ending := .code 2, stderr := e.report program }

def ConfigurationError.exit (program : Text) (e : ConfigurationError) : Exit :=
  match e with
  | .crash c => { ending := .crash c }
  | .selection _ | .delimiter _ =>
    { ending := .code 1, stderr := program ++ ": ".toList ++ e.message ++ ['\n'] }

/--
How a run ends the command. An output that is closed early, or an interrupt, ends it without a word.
-/
def Run.ending (run : Run) : Ending :=
  match run.abort with
  | none => .code run.status
  | some .brokenPipe => .code 1
  | some .interrupted => .code 1
  | some (.crash c) => .crash c

def Run.exit (run : Run) : Exit where
  ending := run.ending
  stdout := run.output
  stderr := run.report

def inputNames (arguments : List Text) : List Text :=
  match Arguments.parse arguments with
  | .error _ => []
  | .ok args =>
    match args.configure with
    | .error _ => []
    | .ok configuration => configuration.files

/--
The command: reads the arguments, builds the configuration, and processes the inputs. `entry` is what names lead
to, and `ends` are standard input and standard output.
-/
def command (program : Text) (arguments : List Text) (entry : Text → Entry) (ends : Ends) : Exit :=
  match Arguments.parse arguments with
  | .error halt => halt.exit program ends.sink
  | .ok args =>
    match args.configure with
    | .error e => e.exit program
    | .ok configuration =>
      (Run.ofNames configuration.extraction program entry ends configuration.files).exit

end Excerpt
