namespace AirRelease

inductive Fault
  | notFound
  | notDirectory
  | isDirectory
  | alreadyExists
  | tooManyLinks
  | nameTooLong
  -- The path holds a character that no path may hold.
  | badPath
  -- The file is not a text.
  | notText
  | other (description : String)
deriving DecidableEq

def Fault.message : Fault → String
  | .notFound => "No such file or directory (os error 2)"
  | .notDirectory => "Not a directory (os error 20)"
  | .isDirectory => "Is a directory (os error 21)"
  | .alreadyExists => "File exists (os error 17)"
  | .tooManyLinks => "Too many levels of symbolic links (os error 40)"
  | .nameTooLong => "File name too long (os error 36)"
  | .badPath => "file name contained an unexpected NUL byte"
  | .notText => "stream did not contain valid UTF-8"
  | .other description => description

structure Path where
  text : String
deriving DecidableEq

namespace Path

def IsAbsolute (p : Path) : Prop :=
  p.text.toList.head? = some '/'

instance : DecidablePred IsAbsolute :=
  fun _ => inferInstanceAs (Decidable (_ = _))

-- A path below `base`. One that is absolute stays as it is.
def join (base path : Path) : Path :=
  if path.IsAbsolute ∨ base.text = "" then path
  else if base.text.toList.getLast? = some '/' then ⟨base.text ++ path.text⟩
  else ⟨base.text ++ "/" ++ path.text⟩

def parts (p : Path) : List String :=
  (p.text.toList.splitOn '/').map String.ofList

-- The names that lead to the path's end. A slash at the end leads into the directory before it.
def steps (p : Path) : List String :=
  let names := p.parts.filter (· ≠ "")
  if p.parts.getLast? = some "" ∧ names ≠ [] then names ++ ["."] else names

-- The names of the path without steps that stay where they are.
def names (p : Path) : List String :=
  p.parts.filter fun name => name ≠ "" && name ≠ "."

def ofNames (absolute : Bool) (names : List String) : Path :=
  ⟨(if absolute then "/" else "") ++ "/".intercalate names⟩

-- The paths of the directories that lead to a path, itself included, the longest one first.
def lineage (p : Path) : List Path :=
  go p.names.reverse
where
  go : List String → List Path
    | [] => []
    | name :: above => ofNames p.IsAbsolute (above.reverse ++ [name]) :: go above

def fileName? (p : Path) : Option String :=
  match p.names.getLast? with
  | some ".." | none => none
  | some name => some name

-- What follows the last dot of the file name, if anything precedes it.
def extension? (p : Path) : Option String := do
  let name ← p.fileName?
  match name.toList.reverse.span (· ≠ '.') with
  | (after, '.' :: _ :: _) => some (String.ofList after.reverse)
  | _ => none

end Path
end AirRelease
