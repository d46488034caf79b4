import AirRelease.Bundle.Sha256
import AirRelease.Effects

namespace AirRelease

inductive BundleError
  | notFound (path : Path)
  -- An archive or a program cannot be the content of a release.
  | refused (path : Path)
  | empty (path : Path)
  | unreadable (path : Path) (fault : Fault)
deriving DecidableEq

def BundleError.message : BundleError → String
  | .notFound path => s!"update content not found: {path.text}"
  | .refused path => s!"archives and binaries cannot be released directly: {path.text}"
  | .empty path => s!"update content is empty: {path.text}"
  | .unreadable path fault => s!"failed to read update content {path.text}: {fault.message}"

inductive BundleKind
  | file
  | directory
deriving DecidableEq

structure Bundle where
  hash : String
  size : Nat
  kind : BundleKind
deriving DecidableEq

namespace Bundle

def ofBytes (bytes : ByteArray) : Bundle :=
  ⟨Sha256.hex bytes, bytes.size, .file⟩

def manifestLine (file : String × ByteArray) : ByteArray :=
  (file.1 ++ ":" ++ Sha256.hex file.2 ++ "\n").toUTF8

-- The bundle of a directory from its files in the order in which they are hashed.
def ofListed (files : List (String × ByteArray)) : Bundle :=
  let manifest := (files.map manifestLine).foldl (· ++ ·) ByteArray.empty
  ⟨Sha256.hex manifest, (files.map (·.2.size)).foldl (· + ·) 0, .directory⟩

def refusedExtensions : List String :=
  ["zip", "apk", "ipa"]

def HasRefusedExtension (path : Path) : Prop :=
  path.extension?.any fun e => refusedExtensions.contains (e.map Char.toLower)

instance : DecidablePred HasRefusedExtension :=
  fun _ => inferInstanceAs (Decidable (_ = true))

def archiveMark : List UInt8 :=
  [0x50, 0x4b, 0x03, 0x04]

-- The bundle of a file with these contents.
def ofContents (path : Path) (bytes : ByteArray) : Except BundleError Bundle :=
  if (bytes.extract 0 4).toList = archiveMark then .error (.refused path)
  else if bytes.size = 0 then .error (.empty path)
  else .ok (ofBytes bytes)

section Load

variable {m : Type → Type} [Monad m] [Disk m]

-- Looks at a part of the content, at this path.
def look {α : Type} (path : Path) (looked : m (Except Fault α)) : ExceptT BundleError m α :=
  (ExceptT.mk looked).adapt (.unreadable path)

-- The paths of the files under an entry of a directory. Links do not count.
def collectEntry (inner : Path → List String → ExceptT BundleError m (List String)) (dir : Path)
    (above : List String) : String × FileType → ExceptT BundleError m (List String)
  | (name, .directory) => inner (dir.join ⟨name⟩) (above ++ [name])
  | (name, .file) => pure ["/".intercalate (above ++ [name])]
  | (_, .link) => pure []

-- The paths of the files below a directory, to which these names lead from the root. A directory that
-- is too many levels down has a path that is too long as well.
def collect : Nat → Path → List String → ExceptT BundleError m (List String)
  | 0, dir, _ => throw (.unreadable dir .nameTooLong)
  | levels + 1, dir, above => do
    let entries ← look dir (Disk.list dir)
    let found ← entries.mapM (collectEntry (collect levels) dir above)
    return found.flatten

def readFile (root : Path) (path : String) : ExceptT BundleError m (String × ByteArray) := do
  let bytes ← look (root.join ⟨path⟩) (Disk.read (root.join ⟨path⟩))
  return (path, bytes)

-- The files of a directory in the order of their paths.
def listing (root : Path) : ExceptT BundleError m (List (String × ByteArray)) := do
  let paths ← collect FileTree.maxPathLength root []
  (paths.mergeSort (· ≤ ·)).mapM (readFile root)

def ofDirectory (root : Path) : ExceptT BundleError m Bundle := do
  let b := ofListed (← listing root)
  if b.size = 0 then throw (.empty root)
  return b

def ofFile (path : Path) : ExceptT BundleError m Bundle := do
  if HasRefusedExtension path then throw (.refused path)
  let bytes ← look path (Disk.read path)
  ofContents path bytes

def load (path : Path) : m (Except BundleError Bundle) := do
  match ← Disk.fileType path with
  | .error .notFound => return .error (.notFound path)
  | .error fault => return .error (.unreadable path fault)
  | .ok .directory => (ofDirectory path).run
  | .ok _ => (ofFile path).run

end Load

end Bundle
end AirRelease
