import PolyLet.Command.Path

/-!
# Files and directories

A file system holds files and directories at locations, which are lists of names from the root
down. A path leads to a location: from the root or from the working directory, segment by segment,
through directories only.

## Main definitions

* `Location`, `Node`, `FileSystem`: what is where
* `FileError`: why a file cannot be read or written
* `FileSystem.locate`: the location that a path leads to
* `FileSystem.read`, `FileSystem.write`: the content of a file and the file system with another
  content
-/

namespace PolyLet

/-- The names from the root down to a file or a directory. -/
abbrev Location := List String

/-- What can be at a location. -/
inductive Node where
  | file (content : ByteArray)
  | directory

/-- Files and directories, and the working directory. -/
structure FileSystem where
  node? : Location → Option Node
  working : Location

/-- Why a file cannot be read or written. -/
inductive FileError where
  | notFound
  | notADirectory
  | isADirectory
  | nameTooLong
  | other (description : String)
  deriving DecidableEq, Repr

/-- The wording of the operating system. -/
def FileError.message : FileError → String
  | notFound => "No such file or directory (os error 2)"
  | notADirectory => "Not a directory (os error 20)"
  | isADirectory => "Is a directory (os error 21)"
  | nameTooLong => "File name too long (os error 36)"
  | other description => description

namespace FileSystem

/-- The file system with a single directory below the root, which is the working directory. -/
def empty : FileSystem where
  node? := fun location => if location = [] ∨ location = ["work"] then some .directory else none
  working := ["work"]

/-- The most bytes of a name. -/
def maxNameSize : Nat := 255

/-- The most bytes of a path. -/
def maxPathSize : Nat := 4095

/-- Follows the segments of a path from a location. Every step needs a directory to start from. -/
def walk (fs : FileSystem) : Location → List String → Except FileError Location
  | location, [] => .ok location
  | location, segment :: segments =>
    match fs.node? location with
    | none => .error .notFound
    | some (.file _) => .error .notADirectory
    | some .directory =>
      if Path.isStay segment then walk fs location segments
      else if segment = ".." then walk fs location.dropLast segments
      else if maxNameSize < segment.utf8ByteSize then .error .nameTooLong
      else walk fs (location ++ [segment]) segments

/-- The location that a path starts from. -/
def start (fs : FileSystem) (p : Path) : Location :=
  bif p.isAbsolute then [] else fs.working

/-- The location that segments of a path lead to. There need not be anything at it. -/
def follow (fs : FileSystem) (p : Path) (segments : List String) : Except FileError Location :=
  if maxPathSize < p.text.utf8ByteSize then .error .nameTooLong
  else fs.walk (fs.start p) segments

/-- The location that a path leads to. -/
def locate (fs : FileSystem) (p : Path) : Except FileError Location :=
  fs.follow p p.segments

/-- The content of the file that a path leads to. -/
def read (fs : FileSystem) (p : Path) : Except FileError ByteArray := do
  match fs.node? (← fs.locate p) with
  | none => .error .notFound
  | some .directory => .error .isADirectory
  | some (.file content) => .ok content

/-- The file system with a node put at a location. -/
def put (fs : FileSystem) (location : Location) (node : Node) : FileSystem :=
  { fs with node? := fun l => if l = location then some node else fs.node? l }

/-- The file system with a content put into the file that a path leads to. The file need not be
there, but its directory does. A trailing slash asks for a directory, whatever the name before
it. -/
def write (fs : FileSystem) (p : Path) (content : ByteArray) : Except FileError FileSystem :=
  match p.segments.reverse with
  | "" :: segments => do
    let way := (segments.dropWhile (· = "")).tail.reverse
    let _ ← fs.follow p (way ++ ["."])
    .error .isADirectory
  | _ => do
    let location ← fs.locate p
    match fs.node? location with
    | some .directory => .error .isADirectory
    | _ => .ok (fs.put location (.file content))

/-- The file system with a file at a location, and with the directories on the way to it. -/
def addFileAt (fs : FileSystem) (location : Location) (content : ByteArray) : FileSystem :=
  { fs with
    node? := fun l =>
      if l = location then some (.file content)
      else if l.isPrefixOf location then some .directory
      else fs.node? l }

/-- The file system with a file of the given name below the working directory. -/
def addFile (fs : FileSystem) (p : Path) (content : ByteArray) : FileSystem :=
  fs.addFileAt (fs.working ++ p.segments.filter fun s => !Path.isStay s) content

end FileSystem

end PolyLet
