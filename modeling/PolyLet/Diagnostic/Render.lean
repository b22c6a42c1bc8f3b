import PolyLet.Diagnostic
import PolyLet.Text.Json
import PolyLet.Text.Position

/-!
# The text of diagnostics

A diagnostic is written as one line of JSON for tools, or as a short report for people. The JSON
object holds all of the diagnostic. The report holds what is said about the error and where it is,
and leaves out the picture of it.

## Main definitions

* `Diagnostic.toJson`: the JSON object of a diagnostic
* `Diagnostic.report`: the lines of a report, with or without color
* `Diagnostic.render`: either of them
-/

namespace PolyLet

/-- A terminal color. -/
inductive Color where
  | red
  | green
  | yellow
  | blue
  | magenta
  deriving DecidableEq, Repr

/-- The number of a color in a control sequence of the terminal. -/
def Color.code : Color → String
  | red => "31"
  | green => "32"
  | yellow => "33"
  | blue => "34"
  | magenta => "35"

/-- A text in a color, if colors are wanted. -/
def Color.paint (color : Color) (wanted : Bool) (text : String) : String :=
  if wanted then "\x1b[" ++ color.code ++ "m" ++ text ++ "\x1b[0m" else text

/-- How diagnostics are written: as JSON, or as reports with or without color. -/
inductive DiagnosticStyle where
  | json
  | report (color : Bool)
  deriving DecidableEq, Repr

namespace Diagnostic

/-- The JSON object of a label. -/
def labelJson (l : Label) : String :=
  Json.object [("end", Json.nat l.span.stop), ("label", Json.string l.text),
    ("start", Json.nat l.span.start)]

/-- The JSON object of a diagnostic about a file, with its members in alphabetical order. -/
def toJson (d : Diagnostic) (file : String) : String :=
  Json.object [("code", Json.string d.code), ("file", Json.string file),
    ("help", Json.option Json.string d.help), ("message", Json.string d.message),
    ("severity", Json.string "error"), ("spans", Json.array (d.labels.map labelJson))]

/-- The first line of a report. -/
def header (d : Diagnostic) (color : Bool) : String :=
  Color.red.paint color ("[" ++ d.code ++ "] Error:") ++ " " ++ d.message

/-- The lines of a report: the code and the message, then the place of the primary label and the
advice. Without a label there is only the message. This is all that is kept of what a terminal shows
of the error: the lines of the source, the frame around them, and the labels that are drawn below
the text they belong to are left out. -/
def report (d : Diagnostic) (color : Bool) (source file : String) : List String :=
  d.header color ::
    match d.labels with
    | [] => []
    | l :: _ =>
      let p := Position.ofOffset source l.span.start
      ("at " ++ file ++ ":" ++ toString p.line ++ ":" ++ toString p.column)
        :: (d.help.map ("help: " ++ ·)).toList

/-- The lines of a diagnostic in the given style. -/
def render (d : Diagnostic) (style : DiagnosticStyle) (source file : String) : List String :=
  match style with
  | .json => [d.toJson file]
  | .report color => d.report color source file

end Diagnostic

end PolyLet
