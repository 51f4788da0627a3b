import Brainfuck.CommandLine.Arguments
import Brainfuck.CommandLine.Log

/-!
# Conventions

What the tool takes over from others: how arguments are read, what the text of a log variable asks
for, and where the settings files of a user are. What is said of invocations is said of any such
conventions.

* `Conventions.shows`: the events that the log shows in an environment.
* `Conventions.plain`: conventions to run the tool with.
-/

namespace Brainfuck

/-- What is agreed on outside of the tool. -/
structure Conventions where
  /-- The options that arguments give, or what is said of arguments that cannot be accepted. -/
  readArguments : List Bytes → Except String Options
  /-- The events that the text of a log variable asks for, if it can be understood. -/
  filter? : List Char → Option (Event → Bool)
  /-- The directory of settings files, if there is one. -/
  settingsDirectory? : Environment → Option Path

namespace Conventions

/-- The events that the log shows: those that its own variable asks for, else those that the common
variable asks for, else warnings. A text that cannot be understood leaves the word to the next. -/
def shows (c : Conventions) (env : Environment) : Event → Bool :=
  (((Environment.text? env.log).bind c.filter?).or
    ((Environment.text? env.commonLog).bind c.filter?)).getD (·.isShown .warn)

/-- Arguments as `Options.read` reads them, a log that is told one level, and settings files in the
user's directory. -/
def plain : Conventions where
  readArguments arguments := (Options.read arguments).mapError ArgumentError.message
  filter? := Level.filter?
  settingsDirectory? := Environment.configDirectory?

end Conventions

end Brainfuck
