import Brainfuck.CommandLine.Log
import Brainfuck.Program.Load

/-!
# Notices

What the command line tool prints on standard error, piece by piece. The time and the look of a
log line and the duration of a run are left to whoever prints.

* `Notice.text`: a piece as it is printed.
* `Notice.isInformation`: the pieces that the quiet setting leaves out.
-/

namespace Brainfuck

/-- One piece of standard error. -/
inductive Notice where
  /-- The arguments cannot be accepted, in the words of who read them. -/
  | refused (words : String)
  /-- How the tool is used. -/
  | usage (name : String)
  | event (e : Event)
  /-- The program file cannot be read. -/
  | unreadable (name : String) (error : LoadError)
  /-- The number of bytes of the program. -/
  | loaded (size : Nat)
  | running
  /-- The run came to the end of the program. -/
  | done
  /-- The report of a run that failed. -/
  | failed (report : String)

namespace Notice

/-- How the tool is used. -/
def usageText (name : String) : String :=
  "Usage:\n  " ++ name ++ " [--tape-size N] [--quiet|-q] <FILE>\n" ++
  "\n" ++
  "Options:\n" ++
  "  --tape-size <N>  Number of tape cells (fallback BF_TAPE_SIZE, then bf.toml; default 30000)\n" ++
  "  --quiet,  -q     Do not print the size, banner and timing lines on stderr\n" ++
  "  --help,   -h     Show this help\n" ++
  "\n" ++
  "Notes:\n" ++
  "- Program output goes to stdout; diagnostics go to stderr.\n" ++
  "- Input (`,`) reads a single byte from stdin; on EOF the current cell is left unchanged.\n" ++
  "- Any characters outside of Brainfuck's ><+-.,[] are ignored.\n" ++
  "- Press ctrl+c to abort a running program, including one waiting for input.\n" ++
  "\n" ++
  "Examples:\n" ++
  "- Run a program file:\n" ++
  "    " ++ name ++ " ./hello.bf\n" ++
  "- Feed bytes to the program's `,` instructions:\n" ++
  "    " ++ name ++ " ./cat.bf < input.txt\n" ++
  "\n"

/-- A piece as it is printed at a time, with the duration of the run in seconds, in a log whose
lines look like `line`. -/
def text (time duration : String) (line : Event → String → String := Event.line) :
    Notice → String
  | .refused words => words ++ "\n"
  | .usage name => usageText name
  | .event e => line e time ++ "\n"
  | .unreadable name error => name ++ ": error: " ++ error.message ++ "\n"
  | .loaded size => "loaded program, size: " ++ toString size ++ "\n"
  | .running => "running, press ctrl+c to abort, press ctrl+d for EOF\n"
  | .done => "\ndone, took: " ++ duration ++ "s\n"
  | .failed report => "\n" ++ report

/-- Does the piece only inform of the course of the run? -/
def isInformation : Notice → Bool
  | .loaded _ | .running | .done => true
  | _ => false

end Notice

end Brainfuck
