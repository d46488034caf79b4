import Std.Time.DateTime.Timestamp
import AirRelease.Command.Session

namespace AirRelease.Main

-- The number and the description that the system gives for an error. Some operations negate the number.
def systemError? (e : IO.Error) : Option (Nat × String) :=
  match e with
  | .alreadyExists _ n d | .invalidArgument _ n d | .permissionDenied _ n d
  | .resourceExhausted _ n d | .inappropriateType _ n d | .noSuchThing _ n d
  | .interrupted _ n d | .noFileOrDirectory _ n d
  | .otherError n d | .resourceBusy n d | .resourceVanished n d | .unsupportedOperation n d
  | .hardwareFault n d | .unsatisfiedConstraints n d | .illegalOperation n d
  | .protocolError n d | .timeExpired n d =>
    some (if n.toNat < UInt32.size / 2 then n.toNat else UInt32.size - n.toNat, d)
  | .unexpectedEof | .userError _ => none

def fault (e : IO.Error) : Fault :=
  match systemError? e with
  | some (2, _) => .notFound
  | some (17, _) => .alreadyExists
  | some (20, _) => .notDirectory
  | some (21, _) => .isDirectory
  | some (36, _) => .nameTooLong
  | some (40, _) => .tooManyLinks
  | some (n, description) => .other s!"{description.capitalize} (os error {n})"
  | none => .other (toString e)

def attempt (p : Path) (action : IO α) : IO (Except Fault α) := do
  if p.text.contains '\x00' then return .error .badPath
  try
    return .ok (← action)
  catch e =>
    return .error (fault e)

def file (p : Path) :=
  System.mkFilePath [p.text]

def fileType : IO.FS.FileType → FileType
  | .dir => .directory
  | .file => .file
  | .symlink | .other => .link

-- An entry that cannot be looked at counts as a file. It is found out when it is read.
def entries (p : Path) : IO (List (String × FileType)) := do
  (← (file p).readDir).toList.mapM fun entry => do
    match ← attempt p (file (p.join ⟨entry.fileName⟩)).symlinkMetadata with
    | .ok metadata => return (entry.fileName, fileType metadata.type)
    | .error _ => return (entry.fileName, .file)

instance : Disk IO where
  read p := attempt p (IO.FS.readBinFile (file p))
  write p bytes := attempt p (IO.FS.writeBinFile (file p) bytes)
  makeDirectory p := attempt p (IO.FS.createDir (file p))
  rename old new := attempt new (IO.FS.rename (file old) (file new))
  link old new := attempt new (IO.FS.hardLink (file old) (file new))
  remove p := attempt p (IO.FS.removeFile (file p))
  fileType p := attempt p do return fileType (← (file p).metadata).type
  list p := attempt p (entries p)
  fileExists p := (file p).pathExists
  isDirectory p := (file p).isDir

instance : Clock IO where
  now := do
    let n := (← Std.Time.Timestamp.now).toNanosecondsSinceUnixEpoch.toInt
    return ⟨n / Instant.nanosecondsPerSecond, (n % Instant.nanosecondsPerSecond).toNat⟩
  pause d := IO.sleep ((d.nanoseconds + 999999) / 1000000).toUInt32

instance : Console IO where
  write
    | .output text => IO.println text
    | .error text => IO.eprintln text

-- Texts that nobody else has: 32 hexadecimal digits that depend on a random seed.
def uniqueText (seed : ByteArray) (n : Nat) : String :=
  ((Sha256.hex (seed ++ (toString n).toUTF8)).take 32).toString

-- The start of a file of the system, up to a blank.
def firstWord (p : Path) : IO String := do
  match ← attempt p (IO.FS.readFile (file p)) with
  | .ok text => return String.ofList (text.toList.takeWhile fun c => !c.isWhitespace)
  | .error _ => return ""

def session : IO Session := do
  let seed ← IO.getRandomBytes 32
  return {
    directory := ⟨(← IO.currentDir).toString⟩
    account := ← IO.getEnv "OTAFLOW_ACCOUNT"
    holder := ← firstWord ⟨"/proc/sys/kernel/hostname"⟩
    process := (← firstWord ⟨"/proc/self/stat"⟩).toNat?.getD 0
    mark := uniqueText seed 0
    keys := fun k => ⟨uniqueText seed (k + 1)⟩
  }

end AirRelease.Main

def main (args : List String) : IO UInt32 := do
  (← AirRelease.Main.session).runWords args
