import Brainfuck.Path

/-!
# The environment

The variables that a run listens to, and the place of the settings file that they give.

* `Environment.configPath?`: the settings file, where the directory of settings files is known.
* `Environment.configDirectory?`: the directory of settings files on systems that keep them in the
  user's directory.
-/

namespace Brainfuck

/-- The variables of the environment that count, where they are set. -/
structure Environment where
  /-- `BF_CONFIG`: the path of the settings file. -/
  config : Option Bytes := none
  /-- `BF_TAPE_SIZE`: the number of cells. -/
  tapeSize : Option Bytes := none
  /-- `BF_QUIET`: whether to leave out the notices. -/
  quiet : Option Bytes := none
  /-- `BF_LOG`: what the log is to show. -/
  log : Option Bytes := none
  /-- `RUST_LOG`: what the log is to show where `BF_LOG` does not say. -/
  commonLog : Option Bytes := none
  /-- `XDG_CONFIG_HOME`: the directory of settings files. -/
  configHome : Option Bytes := none
  /-- `HOME`: the directory of the user. -/
  home : Option Bytes := none
  deriving DecidableEq, Repr, Inhabited

namespace Environment

/-- The text of a variable, if it is set and well formed. -/
def text? (value : Option Bytes) : Option (List Char) := value.bind Utf8.decode?

/-- The usual directory of settings files, in the user's directory. -/
def usualDirectory? (e : Environment) : Option Path :=
  e.home.map fun dir => Path.join dir (Path.ofString ".config")

/-- The directory of settings files: the one that is set, if its name is text, else the usual
one. -/
def configDirectory? (e : Environment) : Option Path :=
  match e.configHome with
  | some dir => if (Utf8.decode? dir).isSome then some dir else e.usualDirectory?
  | none => e.usualDirectory?

/-- The path of the settings file: the one that is set, else the usual name in the directory of
settings files. -/
def configPath? (e : Environment) (directory? : Option Path := e.configDirectory?) :
    Option Path :=
  match e.config with
  | some path => some path
  | none => directory?.map fun dir => Path.join dir (Path.ofString "bf.toml")

end Environment

end Brainfuck
