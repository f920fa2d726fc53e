import CourseCompletion.Keyed

/-!
# Files

`FileAccess m` is what a run asks of the files of its machine.  `Files` is a tree of files that can
be computed with: `StateM Files` answers as a machine would, with one working directory and no
other program at work.

A path is read part by part, and every part but the last has to name a directory; `.` and an empty
part stay where they are, and `..` goes up.  A name has at most 255 bytes and a path at most 4095,
none of them zero.  Writing makes the directories on the way that are missing, and fails where a
file stands in their place.

* `Path.within`      a path from the root;
* `Path.withEnd?`    the same path with something behind the name at its end.
-/

namespace CourseCompletion

/-- The files of a machine, by their paths.  What goes wrong is told in a text. -/
class FileAccess (m : Type → Type) where
  workingDirectory : m String
  isThere : String → m Bool
  isFile : String → m Bool
  read : String → m (Except String String)
  write : String → String → m (Except String Unit)

/-! ## paths -/

namespace Path

/-- a name in a directory -/
def join (directory name : String) : String :=
  if directory.endsWith "/" then directory ++ name else directory ++ "/" ++ name

/-- a path from the root, where a relative one begins in a directory -/
def within (directory path : String) : String :=
  if path.startsWith "/" then path else join directory path

/-- the path whose last name goes on with a suffix: parts behind it that stay where they are do not
count, and one that goes up is no name -/
def withEnd? (suffix path : String) : Option String :=
  match (path.splitOn "/").reverse.dropWhile fun part => part = "" || part = "." with
  | [] => none
  | name :: parts =>
    if name = ".." then none
    else some ("/".intercalate ((name ++ suffix) :: parts).reverse)

end Path

/-! ## a tree of files -/

/-- The names on the way from the root. -/
abbrev Place := List String

/-- Files with their contents, directories, sinks, and the directory where relative paths begin.  A
sink can be read as an empty text, and what is written to it is lost.  Every place on the way to
one of these is a directory, too. -/
structure Files where
  origin : Place
  directories : List Place
  sinks : List Place
  contents : List (Place × String)
deriving DecidableEq

namespace Files

/-- the text of a file -/
def text? (fs : Files) (p : Place) : Option String :=
  (Keyed.get? Prod.fst p fs.contents).map Prod.snd

def isDirectory (fs : Files) (p : Place) : Bool :=
  p = [] || fs.directories.any p.isPrefixOf ||
  (fs.sinks ++ fs.contents.map Prod.fst).any fun q => q ≠ p && p.isPrefixOf q

def isSink (fs : Files) (p : Place) : Bool := fs.sinks.contains p

/-! ### places -/

/-- the parts of a path, and where it begins -/
def parts (fs : Files) (path : String) : Place × List String :=
  match path.splitOn "/" with
  | "" :: rest => ([], rest)
  | rest => (fs.origin, rest)

/-- one part of a path further, from a directory -/
def step (fs : Files) (p : Place) (part : String) : Option Place :=
  if fs.isDirectory p ∧ part.utf8ByteSize ≤ 255 then
    if part = "" ∨ part = "." then some p
    else if part = ".." then some p.dropLast
    else some (p ++ [part])
  else none

/-- the place that a path leads to, whether there is anything or not -/
def place? (fs : Files) (path : String) : Option Place :=
  if path = "" ∨ path.contains '\x00' ∨ 4095 < path.utf8ByteSize then none
  else
    let (start, parts) := fs.parts path
    parts.foldlM fs.step start

/-- the same files with a directory at a place, unless something else stands there -/
def withDirectory (fs : Files) (p : Place) : Option Files :=
  if (fs.text? p).isSome ∨ fs.isSink p then none
  else if fs.isDirectory p then some fs
  else some { fs with directories := p :: fs.directories }

/-- the same files with a directory at the end of every part of a path, from a place on -/
def withDirectories (fs : Files) (p : Place) : List String → Option Files
  | [] => some fs
  | part :: parts => do
    let p ← fs.step p part
    (← fs.withDirectory p).withDirectories p parts

/-! ### reading and writing -/

def isThere (fs : Files) (path : String) : Bool :=
  (fs.place? path).any fun p => fs.isDirectory p || fs.isSink p || (fs.text? p).isSome

def isFile (fs : Files) (path : String) : Bool := (fs.place? path).any fun p => (fs.text? p).isSome

def read (fs : Files) (path : String) : Except String String :=
  match fs.place? path with
  | none => throw "no such place"
  | some p =>
    match fs.text? p with
    | some text => return text
    | none =>
      if fs.isSink p then return ""
      else throw (if fs.isDirectory p then "is a directory" else "no such file")

/-- the same files with a text at the end of a path -/
def write (fs : Files) (path text : String) : Except String Files := do
  let (start, parts) := fs.parts path
  match fs.withDirectories start parts.dropLast with
  | none => throw "not a directory"
  | some fs =>
    match fs.place? path with
    | none => throw "no such directory"
    | some p =>
      if fs.isDirectory p then throw "is a directory"
      else if fs.isSink p then return fs
      else return { fs with contents := Keyed.put Prod.fst (p, text) fs.contents }

end Files

instance : FileAccess (StateM Files) where
  workingDirectory := return "/" ++ "/".intercalate (← get).origin
  isThere path := return (← get).isThere path
  isFile path := return (← get).isFile path
  read path := return (← get).read path
  write path text := do
    match (← get).write path text with
    | .ok fs => set fs; return .ok ()
    | .error e => return .error e

end CourseCompletion
