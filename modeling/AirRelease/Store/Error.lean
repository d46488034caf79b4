import AirRelease.Files.Path
import AirRelease.Name
import AirRelease.Time.Duration

namespace AirRelease

inductive LockTarget
  | registry
  | history (key : AccessKey)
deriving DecidableEq

def LockTarget.text : LockTarget → String
  | .registry => "app registry"
  | .history key => s!"history {key.text}"

inductive StoreError
  | inaccessible (path : Path) (fault : Fault)
  -- The file at the path is not in the stored form.
  | unreadable (path : Path)
  | badKey (key : AccessKey)
deriving DecidableEq

def StoreError.message : StoreError → String
  | .inaccessible path fault => s!"failed to access {path.text}: {fault.message}"
  | .unreadable path => s!"failed to parse {path.text}"
  | .badKey key => s!"access key {key.text} is not a valid storage key"

-- A lock was not free within the time that was waited for it.
inductive LockBusy
  | deployment (name : Name) (waited : Duration)
  | registry (waited : Duration)
deriving DecidableEq

def LockBusy.message : LockBusy → String
  | .deployment name waited => s!"deployment {name.text} is busy; gave up after {waited.text}"
  | .registry waited => s!"the app registry is busy; gave up after {waited.text}"

inductive LockError
  | busy (b : LockBusy)
  | store (e : StoreError)
deriving DecidableEq

def LockError.message : LockError → String
  | .busy b => b.message
  | .store e => e.message

end AirRelease
