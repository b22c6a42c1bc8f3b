import PolyLet.Builtin
import PolyLet.Command.Help
import PolyLet.Command.Host
import PolyLet.Expr.Outline
import PolyLet.Expr.Parser
import PolyLet.JavaScript

/-!
# The commands

Each command reads a source, does its work, and prints a result or an error. Nothing is written
before the program has been read, parsed and checked.

## Main definitions

* `Source`: a program text with its name
* `runCheck`, `runBuild`, `runTokens`, `runAst`: the commands
* `Output`, `run`: everything that a command line leads to
-/

namespace PolyLet

/-! ## Sources -/

/-- A program text, the name it is known by, and the path it was read from, if it was not the
standard input. -/
structure Source where
  name : String
  text : String
  path : Option Path
  deriving DecidableEq, Repr

/-- How a command reports: the style of its diagnostics and the log records it prints. -/
structure Reporting where
  style : DiagnosticStyle
  logLevel : LogLevel
  deriving DecidableEq, Repr

/-- How the commands of an invocation report. JSON output has no colors. -/
def Invocation.reporting (i : Invocation) : Reporting where
  style := if i.json then .json else .report !i.noColor
  logLevel := i.logLevel

/-- Whether colors are wanted. -/
def Reporting.color (r : Reporting) : Bool :=
  match r.style with
  | .json => false
  | .report color => color

section Commands

variable {m : Type → Type} [Monad m]

/-- Prints a log record, if records of its level are wanted. A record may have several lines. -/
def logRecord (r : Reporting) (level : LogLevel) (lines : List String) : Task m Unit :=
  match lines with
  | [] => pure ()
  | first :: rest =>
    if r.logLevel.admits level then Task.printErrors (level.record r.color first :: rest)
    else pure ()

/-- Prints a diagnostic about a source. -/
def printDiagnostic (r : Reporting) (source : Source) (d : Diagnostic) : Task m Unit :=
  Task.printErrors (d.render r.style source.text source.name)

/-- The text that the surroundings give, where `origin` is what it is read from. -/
def readText (origin : String) (action : m (Except FileError ByteArray)) : Task m String := do
  match ← Task.ask action with
  | .error e => throw ("could not read " ++ origin ++ ": " ++ e.message)
  | .ok bytes =>
    match String.fromUTF8? bytes with
    | some text => pure text
    | none => throw ("could not read " ++ origin ++ ": stream did not contain valid UTF-8")

/-- Reads a source: the standard input for a dash, and a file for any other path. -/
def readSource (host : Host m) (r : Reporting) (path : Path) : Task m Source := do
  if path.text = "-" then
    let text ← readText "stdin" host.readInput
    pure ⟨"<stdin>", text, none⟩
  else
    let text ← readText ("'" ++ path.text ++ "'") (host.readFile path)
    logRecord r .debug ["read " ++ toString text.utf8ByteSize ++ " bytes from " ++ path.text]
    pure ⟨path.text, text, some path⟩

/-! ## Stages -/

/-- Reports a syntax error and fails. -/
def failSyntax {α : Type} (r : Reporting) (source : Source) (e : SyntaxError) : Task m α := do
  printDiagnostic r source e.diagnostic
  throw ("could not compile '" ++ source.name ++ "' due to a syntax error")

/-- The program of a source. -/
def parseSource (host : Host m) (r : Reporting) (source : Source) : Task m Expr := do
  match parse source.text with
  | .error e => failSyntax r source e
  | .ok e =>
    logRecord r .debug ["parsed " ++ source.name ++ " in " ++ (← Task.ask host.lapTime)]
    logRecord r .trace ("syntax tree:" :: e.outlineLines ++ [""])
    pure e

/-- The program of a source and its type scheme. -/
def compileSource (host : Host m) (r : Reporting) (source : Source) : Task m (Expr × Scheme) := do
  let e ← parseSource host r source
  match check e with
  | .error err =>
    printDiagnostic r source err.diagnostic
    throw ("could not compile '" ++ source.name ++ "' due to a type error")
  | .ok σ =>
    logRecord r .debug ["inferred `" ++ σ.print ++ "` in " ++ (← Task.ask host.lapTime)]
    pure (e, σ)

/-! ## Commands -/

/-- Prints the type of a program. -/
def runCheck (host : Host m) (r : Reporting) (path : Path) : Task m Unit := do
  let source ← readSource host r path
  let (_, σ) ← compileSource host r source
  Task.print (source.name ++ ": " ++ σ.print ++ "\n")

/-- Where a build writes to: the given file, or the source file with another extension, or the
standard output if the source is the standard input. -/
def buildTarget (source : Source) (output : Option Path) : Option Path :=
  output.or (source.path.map (·.withExtension "js"))

/-- Compiles a program. The output may not be written to the path of the source. -/
def runBuild (host : Host m) (r : Reporting) (path : Path) (output : Option Path) :
    Task m Unit := do
  let source ← readSource host r path
  let (e, σ) ← compileSource host r source
  let script := JavaScript.program e
  match buildTarget source output with
  | none => Task.print script
  | some target =>
    if source.path.any (·.sameAs target) then
      throw ("output path '" ++ target.text ++ "' is the input file; pass -o to choose another")
    else
      match ← Task.ask (host.writeFile target script.toUTF8) with
      | .error err => throw ("could not write '" ++ target.text ++ "': " ++ err.message)
      | .ok () =>
        logRecord r .info ["wrote " ++ target.text ++ " (program type `" ++ σ.print ++ "`)"]

/-- The line of a token in a listing. -/
def tokenLine (style : DiagnosticStyle) (t : Token) : String :=
  match style with
  | .json =>
    Json.object [("kind", Json.string t.kind.label),
      ("span", Json.object [("start", Json.nat t.span.start), ("end", Json.nat t.span.stop)])]
  | .report _ =>
    t.kind.label ++ " " ++ quotedString t.text ++ " " ++ toString t.span.start ++ ".."
      ++ toString t.span.stop

/-- Prints the tokens of a source, also if some of them are invalid. -/
def runTokens (host : Host m) (r : Reporting) (path : Path) : Task m Unit := do
  let source ← readSource host r path
  let (tokens, errors) := tokenize source.text
  Task.print (String.join (tokens.map fun t => tokenLine r.style t ++ "\n"))
  match errors with
  | [] => pure ()
  | e :: _ => failSyntax r source (.lexical e)

/-- Prints the tree of a program. -/
def runAst (host : Host m) (r : Reporting) (path : Path) : Task m Unit := do
  let source ← readSource host r path
  let e ← parseSource host r source
  Task.print e.outline

/-- Carries a command out. -/
def runCommand (host : Host m) (r : Reporting) : Command → Task m Unit
  | .check path => runCheck host r path
  | .build path output => runBuild host r path output
  | .tokens path => runTokens host r path
  | .ast path => runAst host r path

/-! ## Command lines -/

/-- What a command line leads to: an exit status and what is printed. -/
structure Output where
  status : Nat
  console : Console
  deriving DecidableEq, Repr

/-- The line for a failure. -/
def failureLine (json : Bool) (message : String) : String :=
  if json then Diagnostic.toJson ⟨"C0001", message, [], none⟩ "" else "error: " ++ message

/-- Carries out an invocation. The status is one after a failure. -/
def Invocation.run (host : Host m) (i : Invocation) : m Output := do
  let (result, console) ← ((runCommand host i.reporting i.command).run).run {}
  match result with
  | .ok () => pure ⟨0, console⟩
  | .error message =>
    pure ⟨1, { console with stderr := console.stderr ++ [failureLine i.json message] }⟩

/-- What a command line without a command leads to. The status is two for a wrong one. -/
def Refusal.output : Refusal → Output
  | help command => ⟨0, { stdout := helpText command }⟩
  | version => ⟨0, { stdout := versionText }⟩
  | misuse => ⟨2, {}⟩

/-- Carries out a command line, where `setting` is the log level of the environment. -/
def runArgs (host : Host m) (args : List String) (setting : Option String) : m Output :=
  match Invocation.ofArgs args setting with
  | .error refusal => pure refusal.output
  | .ok i => i.run host

end Commands

end PolyLet
