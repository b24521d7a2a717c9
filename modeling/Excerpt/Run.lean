import Excerpt.Configuration
import Excerpt.Files.Tree
import Excerpt.Stream.Transfer

/-!
This module contains the processing of several inputs in turn. Standard input is one source for all inputs that
name it, and all inputs write to one sink. An input that fails is told of and the next one follows; only a closed
output, an interrupt or a crash ends the run early.
-/

namespace Excerpt

inductive Complaint
  | isDirectory
  | unavailable (e : OpenError)
  | malformed (e : LineError)
  | inputOutput
  | noSpace
  deriving DecidableEq, Repr

def Complaint.message : Complaint → Text
  | .isDirectory => "Is a directory".toList
  | .unavailable e => e.message
  | .malformed e => e.message
  | .inputOutput => "Input/output error".toList
  | .noSpace => WriteFault.noSpace.message

structure Diagnostic where
  program : Text
  name : Text
  complaint : Complaint
  deriving DecidableEq, Repr

def Diagnostic.message (d : Diagnostic) : Text :=
  d.program ++ ": ".toList ++ d.name ++ ": ".toList ++ d.complaint.message

inductive Abort
  | brokenPipe
  | interrupted
  | crash (c : Crash)
  deriving DecidableEq, Repr

def Stop.judge : Stop → Except Abort Complaint
  | .malformed e => .ok (.malformed e)
  | .unknownMode name => .error (.crash (.unknownMode name))
  | .readFailed .inputOutput => .ok .inputOutput
  | .readFailed .interrupt => .error .interrupted
  | .writeFailed .brokenPipe => .error .brokenPipe
  | .writeFailed .noSpace => .ok .noSpace

structure Ends where
  stdin : Source
  sink : Sink
  deriving DecidableEq, Repr

structure Visit where
  writes : List Text
  outcome : Except Abort (Option Complaint)
  ends : Ends

def stdinName : Text := ['-']

def Transfer.outcome (t : Transfer) : Except Abort (Option Complaint) :=
  match t.stop with
  | none => .ok none
  | some stop => stop.judge.map some

/--
Processes one input. A name with a null character leads nowhere, not even to a complaint.
-/
def Extraction.visit (x : Extraction) (entry : Text → Entry) (ends : Ends) (name : Text) : Visit :=
  if name = stdinName then
    let t := x.transfer ends.stdin ends.sink
    ⟨t.writes, t.outcome, ⟨t.source, t.sink⟩⟩
  else if '\x00' ∈ name then
    ⟨[], .error (.crash .nullInName), ends⟩
  else
    match entry name with
    | .directory => ⟨[], .ok (some .isDirectory), ends⟩
    | .unavailable e => ⟨[], .ok (some (.unavailable e)), ends⟩
    | .file data =>
      let t := x.transfer (.ofBytes data) ends.sink
      ⟨t.writes, t.outcome, ⟨ends.stdin, t.sink⟩⟩

structure Run where
  writes : List Text := []
  diagnostics : List Diagnostic := []
  abort : Option Abort := none
  deriving DecidableEq, Repr

namespace Run

/--
The exit status of a run that was not ended early.
-/
def status (run : Run) : Nat := if run.diagnostics = [] then 0 else 1

def output (run : Run) : Text := run.writes.flatten

def report (run : Run) : Text := run.diagnostics.flatMap fun d => d.message ++ ['\n']

def ofNames (x : Extraction) (program : Text) (entry : Text → Entry) (ends : Ends) : List Text → Run
  | [] => {}
  | name :: names =>
    let visit := x.visit entry ends name
    match visit.outcome with
    | .error abort => { writes := visit.writes, abort := some abort }
    | .ok complaint =>
      let rest := ofNames x program entry visit.ends names
      { rest with
        writes := visit.writes ++ rest.writes
        diagnostics := (complaint.map (Diagnostic.mk program name)).toList ++ rest.diagnostics }

end Run

end Excerpt
