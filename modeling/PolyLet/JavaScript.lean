import PolyLet.Expr

/-!
# Compilation to JavaScript

Every expression becomes one JavaScript expression. Compound forms are parenthesised, so that no
form changes its meaning by standing inside another one. Functions take one argument at a time,
tuples are arrays, and a `let` is a function that is called at once.

## Main definitions

* `JavaScript.nameOf`: the JavaScript spelling of a name
* `Expr.toJavaScript`: the JavaScript expression of an expression
* `JavaScript.program`: a whole script that prints the value of an expression
-/

namespace PolyLet

namespace JavaScript

/-- The words that JavaScript does not allow as names in strict mode. -/
def reservedWords : List String :=
  ["arguments", "await", "break", "case", "catch", "class", "const", "continue", "debugger",
    "default", "delete", "do", "else", "enum", "eval", "export", "extends", "false", "finally",
    "for", "function", "if", "implements", "import", "in", "instanceof", "interface", "let",
    "new", "null", "package", "private", "protected", "public", "return", "static", "super",
    "switch", "this", "throw", "true", "try", "typeof", "undefined", "var", "void", "while",
    "with", "yield"]

/-- The JavaScript spelling of a name. A reserved word gets a dollar sign, which no name of the
language contains. -/
def nameOf (x : String) : String :=
  if x ∈ reservedWords then x ++ "$" else x

/-- The definitions in front of every program: structural equality, the text of a value, and the
names that every program can use. Helpers start with a dollar sign. -/
def preamble : List String :=
  ["\"use strict\";",
    "const $eq = (a, b) =>",
    "  Array.isArray(a)",
    "    ? a.length === b.length && a.every((x, i) => $eq(x, b[i]))",
    "    : a === b;",
    "const $show = (v) =>",
    "  typeof v === \"boolean\" ? (v ? \"True\" : \"False\")",
    "  : typeof v === \"function\" ? \"<function>\"",
    "  : Array.isArray(v) ? \"(\" + v.map($show).join(\", \") + \")\"",
    "  : String(v);",
    "const eq = (a) => (b) => $eq(a, b);",
    "const add = (a) => (b) => a + b;",
    "const sub = (a) => (b) => a - b;",
    "const mul = (a) => (b) => a * b;"]

end JavaScript

open JavaScript (nameOf)

mutual

/-- The JavaScript binding pattern of a pattern. -/
def Pattern.toJavaScript : Pattern → String
  | .var x => nameOf x
  | .tuple ps => "[" ++ ", ".intercalate (toJavaScriptAll ps) ++ "]"

/-- The JavaScript binding patterns of the patterns of a list. -/
def Pattern.toJavaScriptAll : List Pattern → List String
  | [] => []
  | p :: ps => p.toJavaScript :: toJavaScriptAll ps

end

mutual

/-- The JavaScript expression of an expression. -/
def Expr.toJavaScript : Expr → String
  | .int _ n => if n < 0 then "(" ++ toString n.toInt ++ ")" else toString n.toInt
  | .bool _ b => if b then "true" else "false"
  | .var _ x => nameOf x
  | .app _ f a => f.toJavaScript ++ "(" ++ a.toJavaScript ++ ")"
  | .lam _ p b => "((" ++ p.toJavaScript ++ ") => " ++ b.toJavaScript ++ ")"
  | .letIn _ p e b =>
    "(() => \x7bconst " ++ p.toJavaScript ++ " = " ++ e.toJavaScript ++ ";return "
      ++ b.toJavaScript ++ "\x7d)()"
  | .ite _ c t e =>
    "(" ++ c.toJavaScript ++ " ? " ++ t.toJavaScript ++ " : " ++ e.toJavaScript ++ ")"
  | .tuple _ es => "[" ++ ", ".intercalate (toJavaScriptAll es) ++ "]"

/-- The JavaScript expressions of the expressions of a list. -/
def Expr.toJavaScriptAll : List Expr → List String
  | [] => []
  | e :: es => e.toJavaScript :: toJavaScriptAll es

end

/-- The script that prints the value of an expression. -/
def JavaScript.program (e : Expr) : String :=
  String.join (preamble.map (· ++ "\n")) ++ "console.log($show(" ++ e.toJavaScript ++ "));\n"

/-! ## Texts of patterns and expressions -/

theorem Pattern.toJavaScriptAll_eq_map (ps : List Pattern) :
    toJavaScriptAll ps = ps.map toJavaScript := by
  induction ps with
  | nil => rfl
  | cons p ps ih => exact congrArg (p.toJavaScript :: ·) ih

theorem Pattern.toJavaScript_tuple (ps : List Pattern) :
    (tuple ps).toJavaScript = "[" ++ ", ".intercalate (ps.map toJavaScript) ++ "]" := by
  rw [← toJavaScriptAll_eq_map]
  rfl

namespace Expr

variable (s : Span)

theorem toJavaScriptAll_eq_map (es : List Expr) : toJavaScriptAll es = es.map toJavaScript := by
  induction es with
  | nil => rfl
  | cons e es ih => exact congrArg (e.toJavaScript :: ·) ih

theorem toJavaScript_app (f a : Expr) :
    (app s f a).toJavaScript = f.toJavaScript ++ ("(" ++ (a.toJavaScript ++ ")")) := by
  show f.toJavaScript ++ "(" ++ a.toJavaScript ++ ")" = _
  simp only [String.append_assoc]

theorem toJavaScript_lam (p : Pattern) (b : Expr) : (lam s p b).toJavaScript =
    "((" ++ (p.toJavaScript ++ (") => " ++ (b.toJavaScript ++ ")"))) := by
  show "((" ++ p.toJavaScript ++ ") => " ++ b.toJavaScript ++ ")" = _
  simp only [String.append_assoc]

theorem toJavaScript_letIn (p : Pattern) (e b : Expr) : (letIn s p e b).toJavaScript =
    "(() => \x7bconst " ++ (p.toJavaScript ++ (" = " ++ (e.toJavaScript ++ (";return " ++
      (b.toJavaScript ++ "\x7d)()"))))) := by
  show "(() => \x7bconst " ++ p.toJavaScript ++ " = " ++ e.toJavaScript ++ ";return " ++
    b.toJavaScript ++ "\x7d)()" = _
  simp only [String.append_assoc]

theorem toJavaScript_ite (c t e : Expr) : (ite s c t e).toJavaScript =
    "(" ++ (c.toJavaScript ++ (" ? " ++ (t.toJavaScript ++ (" : " ++ (e.toJavaScript ++ ")"))))) := by
  show "(" ++ c.toJavaScript ++ " ? " ++ t.toJavaScript ++ " : " ++ e.toJavaScript ++ ")" = _
  simp only [String.append_assoc]

theorem toJavaScript_tuple (es : List Expr) :
    (tuple s es).toJavaScript = "[" ++ ", ".intercalate (es.map toJavaScript) ++ "]" := by
  rw [← toJavaScriptAll_eq_map]
  rfl

end Expr

end PolyLet
