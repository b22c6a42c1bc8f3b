import PolyLet.Diagnostic.Render

/-!
# Log records

Besides their results the tools can report what they do, in more or less detail.

## Main definitions

* `LogLevel`: how important a record is, and the least important records that are wanted
* `LogLevel.ofText?`: the names of the levels
* `LogLevel.record`: the text of a record
-/

namespace PolyLet

/-- How important a record is. As a wish, `off` asks for no records, and every other level for the
records of that level and of the levels before it. -/
inductive LogLevel where
  | off
  | error
  | warn
  | info
  | debug
  | trace
  deriving DecidableEq, Repr

namespace LogLevel

/-- All levels, from the shortest log to the longest. -/
def all : List LogLevel :=
  [off, error, warn, info, debug, trace]

/-- The name of a level. -/
def name : LogLevel → String
  | off => "off"
  | error => "error"
  | warn => "warn"
  | info => "info"
  | debug => "debug"
  | trace => "trace"

/-- The level with a name, in upper or lower case. -/
def ofText? (text : String) : Option LogLevel :=
  all.find? fun level => level.name.toList = text.toList.map Char.toLower

/-- The place of a level in the order of detail. -/
def detail : LogLevel → Nat
  | off => 0
  | error => 1
  | warn => 2
  | info => 3
  | debug => 4
  | trace => 5

/-- Whether records of a level are wanted. -/
def admits (wanted level : LogLevel) : Bool :=
  level.detail ≤ wanted.detail

/-- The color of the records of a level. -/
def color : LogLevel → Color
  | off | error => .red
  | warn => .yellow
  | info => .blue
  | debug => .magenta
  | trace => .green

/-- The text of a record. -/
def record (level : LogLevel) (colored : Bool) (message : String) : String :=
  level.color.paint colored (level.name ++ ":") ++ " " ++ message

end LogLevel

end PolyLet
