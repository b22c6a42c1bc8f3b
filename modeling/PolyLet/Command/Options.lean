import PolyLet.Command.Log
import PolyLet.Command.Path

/-!
# Command lines

A command line names a command and a source file, with options before or after the command. Options
that stand on both sides are read on both: a flag is on if either side has it, and a log level after
the command wins over one before it, which wins over the environment.

## Main definitions

* `Command`, `Invocation`: what is asked for
* `Refusal`: why a command line asks for no command
* `Invocation.ofArgs`: the invocation of a command line
-/

namespace PolyLet

/-- The commands by name. -/
inductive CommandName where
  | check
  | build
  | tokens
  | ast
  deriving DecidableEq, Repr

/-- The command with a name. -/
def CommandName.ofText? : String → Option CommandName
  | "check" => some .check
  | "build" => some .build
  | "tokens" => some .tokens
  | "ast" => some .ast
  | _ => none

/-- A command and the files it works on. -/
inductive Command where
  /-- Print the type of a program. -/
  | check (source : Path)
  /-- Compile a program to a file. -/
  | build (source : Path) (output : Option Path)
  /-- Print the tokens of a source. -/
  | tokens (source : Path)
  /-- Print the tree of a program. -/
  | ast (source : Path)
  deriving DecidableEq, Repr

/-- A command with the options that hold for every command. -/
structure Invocation where
  command : Command
  json : Bool
  noColor : Bool
  logLevel : LogLevel
  deriving DecidableEq, Repr

/-- Why a command line asks for no command: it asks for help or for the version, or it is wrong. -/
inductive Refusal where
  | help (command : Option CommandName)
  | version
  | misuse
  deriving DecidableEq, Repr

/-- The source file of a command. -/
def Command.source : Command → Path
  | check p | build p _ | tokens p | ast p => p

/-! ## Options -/

/-- The options read so far on one side of the command, and after it also the files. -/
structure OptionsSoFar where
  json : Bool := false
  noColor : Bool := false
  logLevel : Option LogLevel := none
  source : Option Path := none
  output : Option Path := none
  deriving DecidableEq, Repr

namespace OptionsSoFar

/-- Switches the JSON output on. No flag may be given twice. -/
def setJson (o : OptionsSoFar) : Except Refusal OptionsSoFar :=
  if o.json then .error .misuse else .ok { o with json := true }

/-- Switches colors off. -/
def setNoColor (o : OptionsSoFar) : Except Refusal OptionsSoFar :=
  if o.noColor then .error .misuse else .ok { o with noColor := true }

/-- Sets the log level. -/
def setLogLevel (o : OptionsSoFar) (text : String) : Except Refusal OptionsSoFar :=
  match o.logLevel, LogLevel.ofText? text with
  | none, some level => .ok { o with logLevel := some level }
  | _, _ => .error .misuse

/-- Sets the output file, of which the path is not empty. -/
def setOutput (o : OptionsSoFar) (text : String) : Except Refusal OptionsSoFar :=
  if o.output.isSome || text = "" then .error .misuse else .ok { o with output := some ⟨text⟩ }

/-- Sets the source file, of which the path is not empty. -/
def setSource (o : OptionsSoFar) (text : String) : Except Refusal OptionsSoFar :=
  if o.source.isSome || text = "" then .error .misuse else .ok { o with source := some ⟨text⟩ }

/-- Sets the source file from what is left behind a double dash, where nothing is an option. -/
def setRest (o : OptionsSoFar) : List String → Except Refusal OptionsSoFar
  | [] => .ok o
  | text :: rest => do setRest (← o.setSource text) rest

end OptionsSoFar

/-- An option as it is written, with the value that is attached to it. -/
inductive OptionText where
  /-- A name behind two dashes, perhaps with a value behind an equals sign. -/
  | long (name : String) (value : Option String)
  /-- A letter behind one dash, with what follows it. -/
  | short (letter : Char) (rest : List Char)
  /-- Two dashes alone: no option follows. -/
  | endOfOptions
  /-- No option. A single dash is none either. -/
  | plain

/-- What an argument is. -/
def OptionText.ofArg (arg : String) : OptionText :=
  match arg.toList with
  | ['-', '-'] => .endOfOptions
  | '-' :: '-' :: cs =>
    match cs.dropWhile (· ≠ '=') with
    | [] => .long (String.ofList cs) none
    | _ :: value => .long (String.ofList (cs.takeWhile (· ≠ '='))) (some (String.ofList value))
  | '-' :: c :: cs => .short c cs
  | _ => .plain

/-- The value attached to a letter: what follows it, behind an equals sign if there is one. -/
def attachedValue : List Char → Option String
  | [] => none
  | '=' :: cs => some (String.ofList cs)
  | cs => some (String.ofList cs)

/-- The value of an option and the arguments behind it. The value is attached, or it is the next
argument, unless that is an option. -/
def optionValue (attached : Option String) (args : List String) :
    Except Refusal (String × {rest : List String // rest.length ≤ args.length}) :=
  match attached, args with
  | some value, args => .ok (value, ⟨args, Nat.le_refl _⟩)
  | none, [] => .error .misuse
  | none, arg :: rest =>
    match OptionText.ofArg arg with
    | .plain => .ok (arg, ⟨rest, by simp⟩)
    | _ => .error .misuse

/-! ## Both sides of the command -/

/-- Reads the arguments up to the command. -/
def readBeforeCommand (o : OptionsSoFar) (args : List String) :
    Except Refusal (OptionsSoFar × CommandName × List String) :=
  match args with
  | [] => .error .misuse
  | arg :: rest =>
    match OptionText.ofArg arg with
    | .plain =>
      match CommandName.ofText? arg, arg, rest with
      | some command, _, _ => .ok (o, command, rest)
      | none, "help", [] => .error (.help none)
      | none, "help", [name] =>
        match CommandName.ofText? name with
        | some command => .error (.help (some command))
        | none => .error .misuse
      | none, _, _ => .error .misuse
    | .long "json" none => do readBeforeCommand (← o.setJson) rest
    | .long "no-color" none => do readBeforeCommand (← o.setNoColor) rest
    | .long "log-level" attached => do
      let (value, ⟨rest', _⟩) ← optionValue attached rest
      readBeforeCommand (← o.setLogLevel value) rest'
    | .long "help" none | .short 'h' _ => .error (.help none)
    | .long "version" none | .short 'V' _ => .error .version
    | _ => .error .misuse
termination_by args.length

/-- Reads the arguments behind the command. -/
def readAfterCommand (command : CommandName) (o : OptionsSoFar) (args : List String) :
    Except Refusal OptionsSoFar :=
  match args with
  | [] => .ok o
  | arg :: rest =>
    match OptionText.ofArg arg with
    | .plain => do readAfterCommand command (← o.setSource arg) rest
    | .endOfOptions => o.setRest rest
    | .long "json" none => do readAfterCommand command (← o.setJson) rest
    | .long "no-color" none => do readAfterCommand command (← o.setNoColor) rest
    | .long "log-level" attached => do
      let (value, ⟨rest', _⟩) ← optionValue attached rest
      readAfterCommand command (← o.setLogLevel value) rest'
    | .long "output" attached =>
      if command = .build then do
        let (value, ⟨rest', _⟩) ← optionValue attached rest
        readAfterCommand command (← o.setOutput value) rest'
      else .error .misuse
    | .short 'o' attached =>
      if command = .build then do
        let (value, ⟨rest', _⟩) ← optionValue (attachedValue attached) rest
        readAfterCommand command (← o.setOutput value) rest'
      else .error .misuse
    | .long "help" none | .short 'h' _ => .error (.help (some command))
    | _ => .error .misuse
termination_by args.length

/-- The log level of one side: its option, or else the value of the environment. -/
def sideLevel (o : OptionsSoFar) (setting : Option String) : Except Refusal (Option LogLevel) :=
  match o.logLevel, setting with
  | some level, _ => .ok (some level)
  | none, none => .ok none
  | none, some text =>
    match LogLevel.ofText? text with
    | some level => .ok (some level)
    | none => .error .misuse

/-- The invocation of a command line, where `setting` is the log level of the environment. -/
def Invocation.ofArgs (args : List String) (setting : Option String) :
    Except Refusal Invocation := do
  let (before, name, rest) ← readBeforeCommand {} args
  let after ← readAfterCommand name {} rest
  let some source := after.source | .error .misuse
  -- a bad setting counts unless both sides have a level of their own
  let afterLevel ← sideLevel after setting
  let beforeLevel ← sideLevel before setting
  let level := if after.logLevel.isSome then afterLevel else beforeLevel
  let command := match name with
    | .check => Command.check source
    | .build => .build source after.output
    | .tokens => .tokens source
    | .ast => .ast source
  pure ⟨command, before.json || after.json, before.noColor || after.noColor, level.getD .warn⟩

end PolyLet
