import PolyLet.Command.Options

/-!
# Help

The texts that explain the command line.

## Main definitions

* `versionText`: the name and the version of the program
* `helpText`: the help on the program or on a command
* `usageText`: how to call the program
-/

namespace PolyLet

/-- The name and the version of the program. -/
def versionText : String :=
  "kestrelc 0.1.0\n"

/-- How to call the program. -/
def usageText : String :=
  "Usage: kestrelc [OPTIONS] <COMMAND>"

/-- The name of a command. -/
def CommandName.text : CommandName → String
  | check => "check"
  | build => "build"
  | tokens => "tokens"
  | ast => "ast"

/-- What a command does. -/
def CommandName.summary : CommandName → String
  | check => "Type check a program and print its principal type"
  | build => "Type check a program and compile it to JavaScript"
  | tokens => "Print the token stream of a source file"
  | ast => "Print the syntax tree of a source file"

/-- The lines on the options that every command has. -/
def commonOptions : List String :=
  ["      --json                   Output diagnostics as JSON (one object per line) instead of "
      ++ "human-readable format",
    "      --no-color               Disable colorized output",
    "      --log-level <LOG_LEVEL>  Log verbosity: off, error, warn, info, debug or trace "
      ++ "[env: KESTREL_LOG=] [default: warn]",
    "  -h, --help                   Print help"]

/-- The lines of the help on the program. -/
def programHelp : List String :=
  ["The Kestrel compiler",
    "",
    usageText,
    "",
    "Commands:",
    "  check   " ++ CommandName.check.summary,
    "  build   " ++ CommandName.build.summary,
    "  tokens  " ++ CommandName.tokens.summary,
    "  ast     " ++ CommandName.ast.summary,
    "  help    Print this message or the help of the given subcommand(s)",
    "",
    "Options:"]
    ++ commonOptions ++ ["  -V, --version                Print version"]

/-- The lines of the help on a command. -/
def commandHelp (command : CommandName) : List String :=
  [command.summary,
    "",
    "Usage: kestrelc " ++ command.text ++ " [OPTIONS] <FILE>",
    "",
    "Arguments:",
    "  <FILE>  Source file, or `-` for stdin",
    "",
    "Options:"]
    ++ (if command = .build then
        ["  -o, --output <OUTPUT>        Output path for the generated JavaScript"]
      else [])
    ++ commonOptions

/-- The help on the program, or on a command. -/
def helpText (command : Option CommandName) : String :=
  String.join ((command.elim programHelp commandHelp).map (· ++ "\n"))

end PolyLet
