/-!
# JSON texts

The few JSON forms that the tools write: strings, numbers, arrays and objects on one line without
spaces.

## Main definitions

* `Json.string`: a text as a JSON string
* `Json.object`, `Json.array`: objects and arrays of JSON texts
-/

namespace PolyLet.Json

/-- The form of a character inside a JSON string: quotes, backslashes and controls are escaped. -/
def escapeChar (c : Char) : String :=
  if c = '\x22' then "\\\""
  else if c = '\\' then "\\\\"
  else if c = '\x08' then "\\b"
  else if c = '\x0c' then "\\f"
  else if c = '\n' then "\\n"
  else if c = '\r' then "\\r"
  else if c = '\t' then "\\t"
  else if c.toNat < 0x10 then "\\u000" ++ String.ofList (Nat.toDigits 16 c.toNat)
  else if c.toNat < 0x20 then "\\u00" ++ String.ofList (Nat.toDigits 16 c.toNat)
  else String.singleton c

/-- A text as a JSON string. -/
def string (s : String) : String :=
  "\"" ++ String.join (s.toList.map escapeChar) ++ "\""

/-- A number. -/
def nat (n : Nat) : String :=
  toString n

/-- A value that may be missing. -/
def option (f : String → String) : Option String → String
  | none => "null"
  | some s => f s

/-- An array of values. -/
def array (values : List String) : String :=
  "[" ++ ",".intercalate values ++ "]"

/-- An object with the given members in their order. -/
def object (members : List (String × String)) : String :=
  "\x7b" ++ ",".intercalate (members.map fun m => string m.1 ++ ":" ++ m.2) ++ "\x7d"

end PolyLet.Json
