import Excerpt.CommandLine.Parser

/-!
This module contains the texts that are printed instead of doing work: the usage line, the help text, and the
report of a misuse.
-/

namespace Excerpt

def squeezeBreaks (s : Text) : Text :=
  go 0 s
where
  go (breaks : Nat) : Text → Text
    | [] => []
    | c :: s =>
      if c = '\n' then
        if breaks < 2 then c :: go (breaks + 1) s else go breaks s
      else
        c :: go 0 s

def usageLine (program : Text) : Text :=
  squeezeBreaks ("usage: ".toList ++ program)
    ++ " [-b list | -c list | -f list] [-d delim] [file ...]\n".toList

def helpText (program : Text) : Text :=
  usageLine program ++
    ("\n" ++
    "Select portions of each line of a file.\n" ++
    "\n" ++
    "positional arguments:\n" ++
    "  files                 Files to process. Reads from stdin if none are given.\n" ++
    "\n" ++
    "options:\n" ++
    "  -h, --help            show this help message and exit\n" ++
    "  -b LIST, --bytes LIST\n" ++
    "                        The list specifies byte positions.\n" ++
    "  -c LIST, --chars LIST\n" ++
    "                        The list specifies character positions.\n" ++
    "  -f LIST, --fields LIST\n" ++
    "                        The list specifies fields.\n" ++
    "  -d DELIMITER, --delimiter DELIMITER\n" ++
    "                        Use DELIM instead of TAB for field delimiter.\n").toList

def Misuse.report (program : Text) (e : Misuse) : Text :=
  usageLine program ++ program ++ ": error: ".toList ++ e.message ++ ['\n']

end Excerpt
