import AirRelease.Effects
import AirRelease.Store
import AirRelease.Store.Format
import AirRelease.Store.LockNote

namespace AirRelease

-- The registry, every history and every held lock is a file of its own. Files are written under a temporary
-- name first, so that nobody sees one that is not complete.
structure Directory where
  root : Path
  -- Who takes the locks.
  holder : String
  process : Nat
  -- Makes the names of temporary files different from those of other users of the directory.
  mark : String

-- A file and the directory that it is in.
structure Location where
  folder : Path
  file : String

namespace Location

def path (l : Location) : Path :=
  l.folder.join ⟨l.file⟩

def temporary (l : Location) (mark : String) : Path :=
  l.folder.join ⟨s!"{l.file}.{mark}.tmp"⟩

end Location

namespace Directory

def apps (d : Directory) : Location :=
  ⟨d.root, "apps.json"⟩

def history? (d : Directory) (key : AccessKey) : Except StoreError Location :=
  if key.PathSafe then .ok ⟨d.root.join ⟨"history"⟩, s!"{key.text}.json"⟩ else .error (.badKey key)

def lock? (d : Directory) (target : LockTarget) : Except StoreError Location :=
  match target with
  | .registry => .ok ⟨d.root.join ⟨"locks"⟩, "apps.lock"⟩
  | .history key =>
    if key.PathSafe then .ok ⟨d.root.join ⟨"locks"⟩, s!"history-{key.text}.lock"⟩
    else .error (.badKey key)

variable {m : Type → Type} [Monad m] [Disk m]

-- What the file holds, or `absent` if there is none.
def read (decoder : Decoder α) (absent : α) (l : Location) : m (Except StoreError α) := do
  match ← Disk.readText l.path with
  | .error .notFound => return .ok absent
  | .error fault => return .error (.inaccessible l.path fault)
  | .ok text => return (Json.decode decoder text).mapError fun _ => .unreadable l.path

-- Replaces the whole file at once.
def write (d : Directory) (j : Json) (l : Location) : m (Except StoreError Unit) := do
  match ← Disk.makeDirectories l.folder with
  | .error fault => return .error (.inaccessible l.path fault)
  | .ok () =>
    match ← Disk.write (l.temporary d.mark) j.pretty.toUTF8 with
    | .error fault => return .error (.inaccessible l.path fault)
    | .ok () =>
      match ← Disk.rename (l.temporary d.mark) l.path with
      | .ok () => return .ok ()
      | .error fault =>
        let _ ← Disk.remove (l.temporary d.mark)
        return .error (.inaccessible l.path fault)

-- A file that is not there counts as removed.
def remove (l : Location) : m (Except StoreError Unit) := do
  match ← Disk.remove l.path with
  | .ok () | .error .notFound => return .ok ()
  | .error fault => return .error (.inaccessible l.path fault)

variable [Clock m]

-- Whether the lock's file could be created. It gets its name once its content is complete.
def createLock (d : Directory) (target : LockTarget) (l : Location) : m (Except StoreError Bool) := do
  match ← Disk.makeDirectories l.folder with
  | .error fault => return .error (.inaccessible l.path fault)
  | .ok () =>
    let note : LockNote := ⟨d.holder, d.process, ← Clock.now, target.text⟩
    match ← Disk.write (l.temporary d.mark) note.toJson.line.toUTF8 with
    | .error fault => return .error (.inaccessible l.path fault)
    | .ok () =>
      let linked ← Disk.link (l.temporary d.mark) l.path
      let _ ← Disk.remove (l.temporary d.mark)
      match linked with
      | .ok () => return .ok true
      | .error .alreadyExists => return .ok false
      | .error fault => return .error (.inaccessible l.path fault)

-- Removes the lock's file if its holder seems to be gone or if it cannot be read. Whether it is worth
-- trying to take the lock again.
def breakLock (l : Location) : m (Except StoreError Bool) := do
  match ← Disk.readText l.path with
  | .error .notFound => return .ok true
  | .error fault => return .error (.inaccessible l.path fault)
  | .ok text =>
    let now ← Clock.now
    match Json.decode LockNote.decoder text with
    | .ok note => if note.Stale now then go else return .ok false
    | .error _ => go
where
  go : m (Except StoreError Bool) := do
    return (← remove l).map fun () => true

def takeLock (d : Directory) (target : LockTarget) (l : Location) : m (Except StoreError Bool) := do
  match ← d.createLock target l with
  | .ok false =>
    match ← breakLock l with
    | .ok true => d.createLock target l
    | .ok false => return .ok false
    | .error e => return .error e
  | result => return result

-- The file is removed whoever has created it.
def dropLock (l : Location) : m Unit := do
  let _ ← Disk.remove l.path

def store (d : Directory) : Store m where
  loadApps := read Registry.decoder .empty d.apps
  saveApps r := d.write r.toJson d.apps
  loadHistory key :=
    match d.history? key with
    | .ok l => read History.decoder .empty l
    | .error e => return .error e
  saveHistory key h :=
    match d.history? key with
    | .ok l => d.write h.toJson l
    | .error e => return .error e
  deleteHistory key :=
    match d.history? key with
    | .ok l => remove l
    | .error e => return .error e
  tryLock target :=
    match d.lock? target with
    | .ok l => d.takeLock target l
    | .error e => return .error e
  unlock target :=
    match d.lock? target with
    | .ok l => dropLock l
    | .error _ => return ()
  pause := Clock.pause

end Directory
end AirRelease
