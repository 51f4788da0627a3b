import Brainfuck.CommandLine

/-!
# Accepted invocations

What comes before the run where the arguments are accepted, case by case: the usage is shown, the
program cannot be read, or a machine is ready.

* `Invocation.prepare_eq`: the cases.
* `Invocation.machine`: the machine that is ready.
-/

namespace Brainfuck

namespace Invocation

/-- The events that the log shows. -/
def shows (i : Invocation) : Event → Bool := i.conventions.shows i.environment

/-- The directory of settings files, if there is one. -/
def directory? (i : Invocation) : Option Path := i.conventions.settingsDirectory? i.environment

/-- The settings that the options come to. -/
def settings (i : Invocation) (options : Options) : Settings :=
  .resolve options.tapeSize options.quiet i.environment i.files i.directory?

/-- What the log shows before the program is read. -/
def resolved (i : Invocation) (options : Options) : List Notice :=
  shownEvents i.shows
    (settingsEvents i.environment i.files i.directory? ++ [.settingsResolved (i.settings options)])

/-- The machine for a program: a fresh tape, the streams of the invocation, and a buffer in front
of standard output. -/
def machine (i : Invocation) (options : Options) (program : Program) : Machine :=
  .start program (.blank (i.settings options).tapeSize)
    (.make i.source i.sink (some outputCapacity)) true

/-- A program that has been read, about to be run. -/
def preparation (i : Invocation) (options : Options) (path : Path) (program : Program) :
    Preparation where
  name := i.name
  settings := i.settings options
  shows := i.shows
  machine := i.machine options program
  notices := i.resolved options ++
    shownEvents i.shows [.programLoaded path program.size] ++
    informing (i.settings options) [.loaded program.size, .running]

/-- All that comes before the run, where the arguments are accepted. -/
theorem prepare_eq {i : Invocation} {options : Options}
    (hread : i.conventions.readArguments i.arguments = .ok options) :
    i.prepare =
      match options.help, options.file with
      | true, _ | false, none => .inl ⟨0, #[], [.usage i.name]⟩
      | false, some path =>
        match Program.load i.files path with
        | .error error => .inl ⟨0, #[], i.resolved options ++ [.unreadable i.name error]⟩
        | .ok program => .inr (i.preparation options path program) := by
  unfold prepare
  rw [hread]
  rfl

end Invocation

end Brainfuck
