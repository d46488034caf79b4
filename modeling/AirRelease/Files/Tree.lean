import AirRelease.Files.Path

namespace AirRelease

inductive Node
  | file (bytes : ByteArray)
  | link (target : Path)
  | directory (entries : List (String × Node))

-- What a system tells about an entry of a directory without looking into it.
inductive FileType
  | file
  | link
  | directory
deriving DecidableEq

-- The names from the root of a tree to one of its nodes.
abbrev Place := List String

namespace Node

def fileType : Node → FileType
  | file _ => .file
  | link _ => .link
  | directory _ => .directory

def isDirectory : Node → Bool
  | directory _ => true
  | _ => false

-- Changes what stands under a name.
def alterEntry (name : String) (f : Option Node → Option Node) :
    List (String × Node) → List (String × Node)
  | [] => (f none).toList.map (name, ·)
  | (k, n) :: rest =>
    if k = name then (f (some n)).toList.map (name, ·) ++ rest else (k, n) :: alterEntry name f rest

def under? (name : String) (entries : List (String × Node)) : Option Node :=
  (entries.find? (·.1 = name)).map (·.2)

theorem under?_cons (name : String) (k : String) (n : Node) (rest : List (String × Node)) :
    under? name ((k, n) :: rest) = if k = name then some n else under? name rest := by
  by_cases h : k = name <;> simp [under?, List.find?, h]

theorem under?_alterEntry_of_ne {name other : String} (ne : other ≠ name)
    (f : Option Node → Option Node) (entries : List (String × Node)) :
    under? other (alterEntry name f entries) = under? other entries := by
  induction entries with
  | nil => cases h : f none <;> simp [alterEntry, h, under?, Ne.symm ne]
  | cons e rest ih =>
    obtain ⟨k, n⟩ := e
    by_cases hk : k = name
    · subst hk
      cases h : f (some n) <;> simp [alterEntry, h, under?_cons, Ne.symm ne]
    · simp only [alterEntry, hk, if_false, under?_cons, ih]

theorem under?_alterEntry_self (name : String) {f : Option Node → Option Node}
    {entries : List (String × Node)} {n : Node} (h : f (under? name entries) = some n) :
    under? name (alterEntry name f entries) = some n := by
  induction entries with
  | nil => simp only [under?, List.find?, Option.map_none] at h; simp [alterEntry, h, under?]
  | cons e rest ih =>
    obtain ⟨k, m⟩ := e
    rw [under?_cons] at h
    by_cases hk : k = name
    · simp only [hk, if_true] at h
      simp [alterEntry, hk, h, under?_cons]
    · simp only [hk, if_false] at h
      simp [alterEntry, hk, under?_cons, ih h]

-- The node at a place below this one.
def at? (n : Node) : Place → Option Node
  | [] => some n
  | name :: rest =>
    match n with
    | directory entries => (under? name entries).bind (·.at? rest)
    | _ => none

-- Changes what stands at a place. Nothing changes if there is no directory to hold it.
def alter (f : Option Node → Option Node) : Place → Option Node → Option Node
  | [], n => f n
  | name :: rest, some (directory entries) =>
    some (directory (alterEntry name (alter f rest) entries))
  | _ :: _, n => n

end Node

@[ext]
structure FileTree where
  entries : List (String × Node)

namespace FileTree

def empty : FileTree :=
  ⟨[]⟩

instance : Inhabited FileTree :=
  ⟨empty⟩

def at? (t : FileTree) (place : Place) : Option Node :=
  (Node.directory t.entries).at? place

def alter (t : FileTree) (place : Place) (f : Option Node → Option Node) : FileTree :=
  match place with
  | [] => t
  | name :: rest => ⟨Node.alterEntry name (Node.alter f rest) t.entries⟩

def put (t : FileTree) (place : Place) (n : Node) : FileTree :=
  t.alter place fun _ => some n

def erase (t : FileTree) (place : Place) : FileTree :=
  t.alter place fun _ => none

end FileTree
end AirRelease
