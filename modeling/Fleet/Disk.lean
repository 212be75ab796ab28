import Fleet.Text.Utf8
import Fleet.Table

/-!
# Files

A program reads and writes files by their paths.  On a machine the files are those of the machine;
here they are also a value, so that one can say what a program does to them.  A path leads from the
root, or from the folder that the program works in, through folders to a name; one dot stays where
it is and two dots lead back.

## Main definitions

* `Disk` — what a program needs of the files.
* `FileTree` — files and folders as a value; programs over it are functions.
-/

namespace Fleet

/-- What a program needs of the files; an action that fails says so. -/
class Disk (m : Type → Type) where
  /-- There is a file or folder at a path. -/
  present : String → m Bool
  /-- The content of a file. -/
  read : String → m (Option Bytes)
  /-- Makes the folders on the way to a path. -/
  makeParents : String → m Bool
  /-- Makes the content of a file. -/
  write : String → Bytes → m Bool

/-- The names that lead from the root to a file or folder. -/
abbrev Trail := List String

/-- A path: where it starts, and the names on it. -/
structure FilePath where
  absolute : Bool
  names : List String

/-- The parts of a text between slashes. -/
def splitAtSlashes : List Char → List (List Char)
  | [] => [[]]
  | c :: rest =>
    if c = '/' then [] :: splitAtSlashes rest
    else
      match splitAtSlashes rest with
      | [] => [[c]]
      | part :: parts => (c :: part) :: parts

namespace FilePath

/-- The path that a text stands for, none for an empty text.  A slash at the end asks for a folder,
as a dot does. -/
def ofText? (text : String) : Option FilePath :=
  let cs := text.toList
  if cs.isEmpty then none
  else
    let names := ((splitAtSlashes cs).filter fun part => !part.isEmpty).map String.ofList
    some ⟨cs.head? = some '/', if cs.getLast? = some '/' then names ++ ["."] else names⟩

/-- The path without its last name; dots on it do not count as names. -/
def parent (p : FilePath) : FilePath := { p with names := (p.names.filter (· ≠ ".")).dropLast }

/-- A text that stands for the path. -/
def text (p : FilePath) : String := (if p.absolute then "/" else "") ++ "/".intercalate p.names

end FilePath

/-- Files and folders, and the folder that a program works in. -/
structure FileTree where
  here : Trail
  /-- The folders besides the root. -/
  folders : List Trail
  files : Table Trail Bytes

namespace FileTree

/-- No files, and no folders but the one that the program works in and those around it. -/
def empty (here : Trail) : FileTree :=
  ⟨here, (List.range here.length).map fun n => here.take (n + 1), .empty⟩

/-- There is a folder. -/
def isFolder (t : FileTree) (p : Trail) : Bool := p.isEmpty || t.folders.contains p

/-- Where the names of a path lead, none if one of them is not in a folder. -/
def walk? (t : FileTree) : Trail → List String → Option Trail
  | p, [] => some p
  | p, name :: rest =>
    if !t.isFolder p then none
    else if name = "." then t.walk? p rest
    else if name = ".." then t.walk? p.dropLast rest
    else t.walk? (p ++ [name]) rest

/-- Where a path starts. -/
def origin (t : FileTree) (p : FilePath) : Trail := if p.absolute then [] else t.here

/-- Where a path leads. -/
def locate? (t : FileTree) (text : String) : Option Trail := do
  let p ← FilePath.ofText? text
  t.walk? (t.origin p) p.names

/-- There is a file or folder at a path. -/
def present (t : FileTree) (text : String) : Bool :=
  (t.locate? text).any fun p => t.isFolder p || t.files.contains p

/-- The content of a file. -/
def read? (t : FileTree) (text : String) : Option Bytes := do
  t.files.get? (← t.locate? text)

/-- Makes the folders that the names of a path lead through, and tells whether that worked. -/
def makeFolders (t : FileTree) : Trail → List String → Bool × FileTree
  | _, [] => (true, t)
  | p, name :: rest =>
    if name = "." then t.makeFolders p rest
    else if name = ".." then t.makeFolders p.dropLast rest
    else
      let p := p ++ [name]
      if t.isFolder p then t.makeFolders p rest
      else if t.files.contains p then (false, t)
      else makeFolders { t with folders := p :: t.folders } p rest

/-- Makes the folders on the way to a path. -/
def makeParents (t : FileTree) (text : String) : Bool × FileTree :=
  match FilePath.ofText? text with
  | none => (true, t)
  | some p => t.makeFolders (t.origin p) p.parent.names

/-- Makes the content of a file, none if there is a folder instead or none around it. -/
def write? (t : FileTree) (text : String) (content : Bytes) : Option FileTree := do
  let p ← FilePath.ofText? text
  if p.names.getLast?.all (["." , ".."].contains ·) then none
  let trail ← t.walk? (t.origin p) p.names
  if t.isFolder trail then none else some { t with files := t.files.insert trail content }

instance : Disk (StateM FileTree) where
  present path := do return (← get).present path
  read path := do return (← get).read? path
  makeParents path := fun t => t.makeParents path
  write path content := fun t =>
    match t.write? path content with
    | some t => (true, t)
    | none => (false, t)

end FileTree

end Fleet
