import AirRelease.Files.Access
import AirRelease.Time.Duration
import AirRelease.Time.Instant

namespace AirRelease

class Disk (m : Type → Type) where
  read : Path → m (Except Fault ByteArray)
  write : Path → ByteArray → m (Except Fault Unit)
  makeDirectory : Path → m (Except Fault Unit)
  rename : Path → Path → m (Except Fault Unit)
  link : Path → Path → m (Except Fault Unit)
  remove : Path → m (Except Fault Unit)
  -- What the path leads to, past all links.
  fileType : Path → m (Except Fault FileType)
  list : Path → m (Except Fault (List (String × FileType)))
  fileExists : Path → m Bool
  isDirectory : Path → m Bool

class Clock (m : Type → Type) where
  now : m Instant
  pause : Duration → m Unit

-- Errors are lines apart from the output.
inductive Line
  | output (text : String)
  | error (text : String)
deriving DecidableEq

class Console (m : Type → Type) where
  write : Line → m Unit

namespace Disk

variable {m : Type → Type} [Monad m] [Disk m]

def readText (path : Path) : m (Except Fault String) := do
  match ← read path with
  | .error e => return .error e
  | .ok bytes => return match String.fromUTF8? bytes with
    | some text => .ok text
    | none => .error .notText

-- Makes the first directory of the list and before it, where needed, those that hold it.
def makeLineage : List Path → m (Except Fault Unit)
  | [] => return .ok ()
  | path :: above => do
    match ← makeDirectory path with
    | .ok () => return .ok ()
    | .error .notFound =>
      match ← makeLineage above with
      | .error e => return .error e
      | .ok () => settle path (← makeDirectory path)
    | .error e => settle path (.error e)
where
  -- Someone else may have made the directory.
  settle (path : Path) : Except Fault Unit → m (Except Fault Unit)
    | .ok () => return .ok ()
    | .error e => return if ← isDirectory path then .ok () else .error e

def makeDirectories (path : Path) : m (Except Fault Unit) :=
  makeLineage path.lineage

end Disk
end AirRelease
