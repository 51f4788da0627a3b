/-!
# I/O errors

What a file, an input or an output may answer in place of doing its work: an error number of
the operating system, a bare kind of failure, or a kind with words of its own.

* `IoError.kind`: the kind of failure, on which callers decide (an interrupted call is repeated).
* `IoError.message`: the words that diagnostics show.
-/

namespace Brainfuck

namespace IoError

/-- The kinds of failure that are told apart. -/
inductive Kind where
  | notFound
  | permissionDenied
  | interrupted
  | wouldBlock
  | timedOut
  | unexpectedEof
  | invalidInput
  | invalidData
  | invalidFilename
  | notADirectory
  | isADirectory
  | fileTooLarge
  | storageFull
  | brokenPipe
  | writeZero
  | other
  | uncategorized
  deriving DecidableEq, Repr

/-- The words for a failure of which only the kind is known. -/
def Kind.text : Kind → String
  | .notFound => "entity not found"
  | .permissionDenied => "permission denied"
  | .interrupted => "operation interrupted"
  | .wouldBlock => "operation would block"
  | .timedOut => "timed out"
  | .unexpectedEof => "unexpected end of file"
  | .invalidInput => "invalid input parameter"
  | .invalidData => "invalid data"
  | .invalidFilename => "invalid filename"
  | .notADirectory => "not a directory"
  | .isADirectory => "is a directory"
  | .fileTooLarge => "file too large"
  | .storageFull => "no storage space"
  | .brokenPipe => "broken pipe"
  | .writeZero => "write zero"
  | .other => "other error"
  | .uncategorized => "uncategorized error"

/-- The kind and the words of an error number of the operating system. -/
def ofNumber (number : Nat) : Kind × String :=
  match number with
  | 1 => (.permissionDenied, "Operation not permitted")
  | 2 => (.notFound, "No such file or directory")
  | 4 => (.interrupted, "Interrupted system call")
  | 5 => (.uncategorized, "Input/output error")
  | 9 => (.uncategorized, "Bad file descriptor")
  | 11 => (.wouldBlock, "Resource temporarily unavailable")
  | 13 => (.permissionDenied, "Permission denied")
  | 20 => (.notADirectory, "Not a directory")
  | 21 => (.isADirectory, "Is a directory")
  | 22 => (.invalidInput, "Invalid argument")
  | 27 => (.fileTooLarge, "File too large")
  | 28 => (.storageFull, "No space left on device")
  | 32 => (.brokenPipe, "Broken pipe")
  | 36 => (.invalidFilename, "File name too long")
  | n => (.uncategorized, "Unknown error " ++ toString n)

end IoError

/-- A failure of a file, an input or an output. -/
inductive IoError where
  /-- The operating system gave an error number. -/
  | system (number : Nat)
  /-- Only the kind of failure is known. -/
  | bare (kind : IoError.Kind)
  /-- The failure comes with its own words. -/
  | worded (kind : IoError.Kind) (words : String)
  deriving DecidableEq, Repr

namespace IoError

/-- The kind of failure. -/
def kind : IoError → Kind
  | .system n => (ofNumber n).1
  | .bare k => k
  | .worded k _ => k

/-- The words that diagnostics show. An error number is named behind its words. -/
def message : IoError → String
  | .system n => (ofNumber n).2 ++ " (os error " ++ toString n ++ ")"
  | .bare k => k.text
  | .worded _ s => s

/-- Was the call merely interrupted, so that it may be repeated? -/
def isInterrupted (e : IoError) : Bool := e.kind == .interrupted

end IoError

end Brainfuck
