import AirRelease.Files.Path
import AirRelease.Files.Tree

namespace AirRelease.FileTree

def maxLinks : Nat :=
  40

-- In bytes.
def maxNameLength : Nat :=
  255

def maxPathLength : Nat :=
  4095

-- The place that the names lead to. The last name may be of something that is not there yet. At a
-- link that is to be followed, `onLink` goes on with the names of the link's target and the rest. A
-- link under the last name counts only with `follow`.
def descend (t : FileTree) (follow : Bool) (onLink : Place → List String → Except Fault Place)
    (here : Place) : List String → Except Fault Place
  | [] => .ok here
  | name :: rest =>
    if name = "." then t.descend follow onLink here rest
    else if name = ".." then t.descend follow onLink here.dropLast rest
    else if maxNameLength < name.utf8ByteSize then .error .nameTooLong
    else
      match t.at? (here ++ [name]) with
      | none => if rest = [] then .ok (here ++ [name]) else .error .notFound
      | some (.directory _) => t.descend follow onLink (here ++ [name]) rest
      | some (.file _) => if rest = [] then .ok (here ++ [name]) else .error .notDirectory
      | some (.link target) =>
        if rest = [] ∧ ¬follow then .ok (here ++ [name])
        else onLink (if target.IsAbsolute then [] else here) (target.steps ++ rest)

-- Follows at most so many links.
def walk (t : FileTree) (follow : Bool) : Nat → Place → List String → Except Fault Place
  | 0 => t.descend follow fun _ _ => .error .tooManyLinks
  | links + 1 => t.descend follow (t.walk follow links)

-- Paths that are not absolute start at `base`.
def locate (t : FileTree) (base : Place) (follow : Bool) (path : Path) : Except Fault Place :=
  if path.text.toList.contains '\x00' then .error .badPath
  else if path.text = "" then .error .notFound
  else if maxPathLength < path.text.utf8ByteSize then .error .nameTooLong
  else t.walk follow maxLinks (if path.IsAbsolute then [] else base) path.steps

def node (t : FileTree) (base : Place) (path : Path) : Except Fault Node := do
  let place ← t.locate base true path
  match t.at? place with
  | some n => return n
  | none => throw .notFound

-- The entries of a directory, in the order in which they stand there.
def list (t : FileTree) (base : Place) (path : Path) : Except Fault (List (String × FileType)) := do
  match ← t.node base path with
  | .directory entries => return entries.map fun (name, n) => (name, n.fileType)
  | _ => throw .notDirectory

def read (t : FileTree) (base : Place) (path : Path) : Except Fault ByteArray := do
  match ← t.node base path with
  | .file bytes => return bytes
  | .directory _ => throw .isDirectory
  | .link _ => throw .tooManyLinks

-- Creates the file or replaces what is in it.
def write (t : FileTree) (base : Place) (path : Path) (bytes : ByteArray) : Except Fault FileTree := do
  let place ← t.locate base true path
  match t.at? place with
  | some (.directory _) => throw .isDirectory
  | _ => return t.put place (.file bytes)

def makeDirectory (t : FileTree) (base : Place) (path : Path) : Except Fault FileTree := do
  let place ← t.locate base false path
  match t.at? place with
  | some _ => throw .alreadyExists
  | none => return t.put place (.directory [])

-- Gives a file another name. A file that has this name already is replaced.
def rename (t : FileTree) (base : Place) (old new : Path) : Except Fault FileTree := do
  let source ← t.locate base false old
  let target ← t.locate base false new
  match t.at? source with
  | none => throw .notFound
  | some n =>
    if (t.at? target).any Node.isDirectory then throw .isDirectory
    return (t.erase source).put target n

-- Gives a file a second name, which must be free.
def link (t : FileTree) (base : Place) (old new : Path) : Except Fault FileTree := do
  let source ← t.locate base false old
  let target ← t.locate base false new
  match t.at? source, t.at? target with
  | none, _ => throw .notFound
  | some _, some _ => throw .alreadyExists
  | some n, none => return t.put target n

def remove (t : FileTree) (base : Place) (path : Path) : Except Fault FileTree := do
  let place ← t.locate base false path
  match t.at? place with
  | none => throw .notFound
  | some (.directory _) => throw .isDirectory
  | some _ => return t.erase place

end AirRelease.FileTree
