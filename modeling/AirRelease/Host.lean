import AirRelease.Effects

namespace AirRelease

structure Host where
  files : FileTree
  base : Place
  time : Instant
  console : List Line

namespace Host

-- Runs an operation that may change the files. The files stay as they are if it fails.
def attempt (f : FileTree → Place → Except Fault FileTree) : StateM Host (Except Fault Unit) :=
  fun h =>
    match f h.files h.base with
    | .ok files => (.ok (), { h with files })
    | .error e => (.error e, h)

theorem attempt_error {f : FileTree → Place → Except Fault FileTree} {h : Host} {e : Fault}
    (he : f h.files h.base = .error e) : attempt f h = (.error e, h) := by
  simp [attempt, he]

theorem attempt_ok {f : FileTree → Place → Except Fault FileTree} {h : Host} {files : FileTree}
    (hf : f h.files h.base = .ok files) : attempt f h = (.ok (), { h with files }) := by
  simp [attempt, hf]

instance : Disk (StateM Host) where
  read path := fun h => (h.files.read h.base path, h)
  write path bytes := attempt fun t base => t.write base path bytes
  makeDirectory path := attempt fun t base => t.makeDirectory base path
  rename old new := attempt fun t base => t.rename base old new
  link old new := attempt fun t base => t.link base old new
  remove path := attempt fun t base => t.remove base path
  fileType path := fun h => ((h.files.node h.base path).map Node.fileType, h)
  list path := fun h => (h.files.list h.base path, h)
  fileExists path := fun h => ((h.files.node h.base path).isOk, h)
  isDirectory path := fun h =>
    (match h.files.node h.base path with
      | .ok n => n.isDirectory
      | .error _ => false, h)

instance : Clock (StateM Host) where
  now := fun h => (h.time, h)
  pause d := fun h => ((), { h with time := h.time.addNanoseconds d.nanoseconds })

instance : Console (StateM Host) where
  write line := fun h => ((), { h with console := h.console ++ [line] })

end Host
end AirRelease
