/-!
# Paths

A path is a text in which slashes separate segments. An empty segment, from a doubled or trailing
slash, and a single dot stay where they are; two dots go up.

## Main definitions

* `Path`, `Path.segments`, `Path.isAbsolute`: paths and their parts
* `Path.sameAs`: equality of paths without needless slashes and dots
* `Path.withExtension`: the path with another file name extension
-/

namespace PolyLet

/-- The path of a file, as it was given. -/
structure Path where
  text : String
  deriving DecidableEq, Repr

/-- The pieces of a text between its slashes. -/
def splitAtSlashes : List Char → List (List Char)
  | [] => [[]]
  | c :: cs =>
    if c = '/' then [] :: splitAtSlashes cs
    else
      match splitAtSlashes cs with
      | [] => [[c]]
      | s :: ss => (c :: s) :: ss

namespace Path

/-- The texts between the slashes of a path. -/
def segments (p : Path) : List String :=
  (splitAtSlashes p.text.toList).map String.ofList

/-- Whether a path starts at the root: with a slash. -/
def isAbsolute (p : Path) : Bool :=
  p.text.toList.head? = some '/'

/-- Whether a segment leads nowhere else. -/
def isStay (s : String) : Bool :=
  s = "" || s = "."

/-- The segments of a path that matter for its equality with another one. A dot matters only at the
very start. -/
def components (p : Path) : List String :=
  match p.segments with
  | "." :: rest => "." :: rest.filter fun s => !isStay s
  | segments => segments.filter fun s => !isStay s

/-- Whether two paths are written the same apart from needless slashes and dots. Paths that are not
may still lead to the same file. -/
def sameAs (p q : Path) : Bool :=
  p.isAbsolute = q.isAbsolute && p.components = q.components

/-- A file name up to the dot in front of its extension and with it. A name without an extension
stays; a dot at the very start is not in front of one. -/
def upToExtension (name : String) : String :=
  match name.toList.reverse.dropWhile (· ≠ '.') with
  | dot :: c :: cs => String.ofList (dot :: c :: cs).reverse
  | _ => name

/-- A file name without its extension and the dot in front of it. -/
def stem (name : String) : String :=
  match name.toList.reverse.dropWhile (· ≠ '.') with
  | _ :: c :: cs => String.ofList (c :: cs).reverse
  | _ => name

/-- The path with another file name extension. The old extension is taken off first, and what does
not end in a file name then gets no new one: a name of which only two dots are left leads to the
directory above. -/
def withExtension (p : Path) (extension : String) : Path :=
  match p.segments.reverse.dropWhile isStay with
  | [] => p
  | name :: before =>
    if name = ".." then p
    else if upToExtension name = ".." then ⟨"/".intercalate (".." :: before).reverse⟩
    else ⟨"/".intercalate ((stem name ++ "." ++ extension) :: before).reverse⟩

end Path

end PolyLet
