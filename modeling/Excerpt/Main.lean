import Excerpt.Command

/-!
This module contains the program: it fetches the inputs that the command asks for, and prints what the command
says. Nothing is decided here.
-/

namespace Excerpt

partial def readToEnd (stream : IO.FS.Stream) (data : ByteArray := .empty) : IO ByteArray := do
  let chunk ← stream.read 65536
  if chunk.isEmpty then return data else readToEnd stream (data ++ chunk)

def Entry.ofError : IO.Error → Entry
  | .inappropriateType _ code _ => if code = 21 then .directory else .unavailable .notDirectory
  | .permissionDenied .. => .unavailable .accessDenied
  | .invalidArgument .. => .unavailable .nameTooLong
  | _ => .unavailable .notFound

def fetch (name : Text) : IO Entry := do
  try
    return .file (← IO.FS.readBinFile (String.ofList name)).toList
  catch e =>
    return .ofError e

end Excerpt

open Excerpt in
def main (arguments : List String) : IO UInt32 := do
  let arguments := arguments.map String.toList
  let names := inputNames arguments
  let data ← if names.contains stdinName then readToEnd (← IO.getStdin) else pure .empty
  let entries ← names.mapM fun name => return (name, ← fetch name)
  let entry name := (entries.lookup name).getD (.unavailable .notFound)
  let exit := command (baseName (← IO.appPath).toString.toList) arguments entry ⟨.ofBytes data.toList, {}⟩
  IO.eprint (String.ofList exit.stderr)
  try
    IO.print (String.ofList exit.stdout)
    (← IO.getStdout).flush
  catch _ =>
    return 1
  match exit.ending with
  | .code n => return n.toUInt32
  | .crash c =>
    unless c.message.isEmpty do
      IO.eprintln (String.ofList c.message)
    return 1
