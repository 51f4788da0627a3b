import Brainfuck.Environment
import Brainfuck.Settings.File
import Brainfuck.Tape

/-!
# Settings

What a run is told: how many cells its tape has, and whether to leave out the notices. The
options of the command line come first, then the environment, then the settings file, then the
defaults. A value that cannot be read, and a tape size of zero, leave the word to the next.

* `Settings.layered`: the settings that the layers give.
* `Settings.resolve`: the same, with the environment, the files and the directory of settings files
  at hand.
-/

namespace Brainfuck

/-- What a run is told. -/
structure Settings where
  tapeSize : Nat := defaultTapeSize
  quiet : Bool := false
  deriving DecidableEq, Repr, Inhabited

namespace Settings

/-- The settings that the options, the texts of the environment and the file give. The options
cannot turn quiet off, so they do not hide the other layers by leaving it out. -/
def layered (sizeOption : Option Nat) (quietOption : Bool) (sizeText quietText : Option (List Char))
    (file : FileSettings) : Settings where
  tapeSize :=
    (((sizeOption.filter (0 < ·)).or (sizeText.bind readTapeSize?)).or file.tapeSize).getD
      defaultTapeSize
  quiet := quietOption || ((quietText.bind readSwitch?).or file.quiet).getD false

/-- The path and the text of the settings file, if there is one that can be read as text. -/
def fileText? (env : Environment) (files : Files)
    (directory? : Option Path := env.configDirectory?) : Option (Path × List Char) :=
  (env.configPath? directory?).bind fun path =>
    match files path with
    | .ok content => (Utf8.decode? content.toList).map fun text => (path, text)
    | .error _ => none

/-- The settings of the settings file; without one, none are set. -/
def ofFile (env : Environment) (files : Files)
    (directory? : Option Path := env.configDirectory?) : FileSettings :=
  match fileText? env files directory? with
  | some (_, text) => .ofText text
  | none => {}

/-- The settings of a run. -/
def resolve (sizeOption : Option Nat) (quietOption : Bool) (env : Environment) (files : Files)
    (directory? : Option Path := env.configDirectory?) : Settings :=
  layered sizeOption quietOption (Environment.text? env.tapeSize) (Environment.text? env.quiet)
    (ofFile env files directory?)

/-- The settings as the log shows them. -/
def text (s : Settings) : String :=
  "Config \x7b tape_size: " ++ toString s.tapeSize ++ ", quiet: " ++ toString s.quiet ++ " \x7d"

end Settings

end Brainfuck
