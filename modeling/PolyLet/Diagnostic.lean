import PolyLet.Expr.SyntaxError
import PolyLet.TypeError

/-!
# Diagnostics

What a reader is told about an error: a code, a message, labels on places of the source, and
sometimes a piece of advice.

## Main definitions

* `Diagnostic`, `Label`: messages with labelled places
* `Diagnostic.ofSyntax`, `SyntaxError.diagnostic`: diagnostics of syntax errors
* `TypeError.diagnostic`: diagnostics of type errors
-/

namespace PolyLet

/-- A remark on a place of the source. -/
structure Label where
  span : Span
  text : String
  deriving DecidableEq, Repr

/-- What a reader is told about an error. The first label is the primary one. -/
structure Diagnostic where
  code : String
  message : String
  labels : List Label
  help : Option String
  deriving DecidableEq, Repr

/-! ## Syntax errors -/

/-- The diagnostic of a syntax error with the given message and place, and perhaps a second place
that explains it. -/
def Diagnostic.ofSyntax (message : String) (span : Span) (related : Option (String × Span)) :
    Diagnostic where
  code := "P0001"
  message := message
  labels := ⟨span, message⟩ :: (related.map fun r => ⟨r.2, r.1⟩).toList
  help := none

/-- The diagnostic of a syntax error. -/
def SyntaxError.diagnostic (e : SyntaxError) : Diagnostic :=
  .ofSyntax e.message e.span e.related

/-! ## Type errors -/

namespace TypeError

/-- The code of a type error. -/
def code : TypeError → String
  | mismatch .. => "E0001"
  | infiniteType .. => "E0002"
  | unboundVariable .. => "E0003"
  | patternArity .. => "E0004"
  | patternType .. => "E0005"

/-- The remark on the place of a type error. -/
def label : TypeError → String
  | mismatch expected found => "expected `" ++ expected.print ++ "`, found `" ++ found.print ++ "`"
  | infiniteType .. => "recursive type here"
  | unboundVariable .. => "not found in this scope"
  | patternArity _ t => "the bound value has type `" ++ t.print ++ "`"
  | patternType _ t => "the bound value has type `" ++ t.print ++ "`"

/-- The advice on two types that do not fit, if exactly one of them is a function and the other one
is known. -/
def mismatchHelp : Ty → Ty → Option String
  | _, .var _ | .var _, _ | .fn .., .fn .. => none
  | .fn .., _ => some "only functions can be applied to arguments"
  | _, .fn .. => some "a function was found here; it may be missing arguments"
  | _, _ => none

/-- The advice on a type error. -/
def help : TypeError → Option String
  | mismatch expected found => mismatchHelp expected found
  | infiniteType .. => some "a value cannot have a type that refers to itself"
  | unboundVariable .. => none
  | patternArity .. => some "a tuple pattern needs exactly one element per tuple component"
  | patternType .. => some "only tuples can be destructured"

/-- The diagnostic of a type error, with its place if there is one. -/
def diagnostic (e : TypeError) (span : Option Span) : Diagnostic where
  code := e.code
  message := e.message
  labels := (span.map fun s => ⟨s, e.label⟩).toList
  help := e.help

end TypeError

/-- The diagnostic of an error of type inference. -/
def InferError.diagnostic (e : InferError) : Diagnostic :=
  e.cause.diagnostic (some e.span)

end PolyLet
