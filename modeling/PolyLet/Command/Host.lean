import PolyLet.Command.FileSystem

/-!
# The surroundings of a command

A command sees its surroundings through a few operations only. They are given for a file system
that is a value, and they can be given for the machine that the program runs on.

## Main definitions

* `Host m`: the operations, in a monad `m`
* `FileSystem.host`: the operations on a file system
* `Console`: what a command has printed
* `Task m`: a command that prints and may fail with a message
-/

namespace PolyLet

/-- What a command can ask of its surroundings. -/
structure Host (m : Type → Type) where
  /-- The whole standard input. -/
  readInput : m (Except FileError ByteArray)
  /-- The content of a file. -/
  readFile : Path → m (Except FileError ByteArray)
  /-- Puts a content into a file. -/
  writeFile : Path → ByteArray → m (Except FileError Unit)
  /-- The time since the last look at the clock, as a text. -/
  lapTime : m String

/-- A content is an input that can be read. -/
instance : Coe ByteArray (Except FileError ByteArray) := ⟨.ok⟩

/-- The operations on a file system, with a given text for every time, and with a standard input
that has a given content or cannot be read. -/
def FileSystem.host (input : Except FileError ByteArray) (time : String) :
    Host (StateM FileSystem) where
  readInput := pure input
  readFile p := do
    let fs ← get
    pure (fs.read p)
  writeFile p content := do
    let fs ← get
    match fs.write p content with
    | .error e => pure (.error e)
    | .ok fs' =>
      set fs'
      pure (.ok ())
  lapTime := pure time

/-- What a command has printed: the text of its standard output and the lines of its standard
error. -/
structure Console where
  stdout : String := ""
  stderr : List String := []
  deriving DecidableEq, Repr

/-- A command that prints and may fail with a message. What was printed before a failure stays
printed. -/
abbrev Task (m : Type → Type) := ExceptT String (StateT Console m)

namespace Task

variable {m : Type → Type} [Monad m]

/-- Prints to the standard output. -/
def print (text : String) : Task m Unit :=
  modify fun c => { c with stdout := c.stdout ++ text }

/-- Prints lines to the standard error. -/
def printErrors (lines : List String) : Task m Unit :=
  modify fun c => { c with stderr := c.stderr ++ lines }

/-- Asks something of the surroundings. -/
def ask {α : Type} (action : m α) : Task m α :=
  ExceptT.lift (StateT.lift action)

end Task

end PolyLet
