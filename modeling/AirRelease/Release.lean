import AirRelease.Release.Error
import AirRelease.Release.Options
import AirRelease.Rollout.Policy

namespace AirRelease

-- What an operation that may append a release has done.
inductive Outcome
  | released (p : Package)
  | skipped (current : Package)
deriving DecidableEq

namespace Outcome

-- The release that is now current.
def package : Outcome → Package
  | released p | skipped p => p

def isReleased : Outcome → Bool
  | released _ => true
  | skipped _ => false

end Outcome

namespace History

def appendChecked (h : History) (c : Candidate) (rollout : Option Int) (allowDuplicate : Bool) :
    Except ReleaseError (Outcome × History) :=
  match h.latest with
  | some current =>
    if current.hash = c.hash ∧ current.version = c.version then
      if allowDuplicate then .ok (.skipped current, h) else .error (.identical current.label)
    else go (some current)
  | none => go none
where
  go (current : Option Package) : Except ReleaseError (Outcome × History) := do
    let rollout ← (Rollout.forRelease rollout current).mapError .ofRollout
    let (p, h) ← (h.append { c with rollout }).mapError .ofHistory
    return (.released p, h)

def release (h : History) (hash : String) (size : Nat) (uploadTime : Nat) (version : VersionRange)
    (o : ReleaseOptions) : Except ReleaseError (Outcome × History) :=
  let c : Candidate := {
    version, hash, size, uploadTime
    description := o.description
    disabled := o.disabled.getD false
    mandatory := o.mandatory.getD false
    rollout := .full
    method := .upload
  }
  h.appendChecked c o.rollout o.allowDuplicate

-- The release that a patch is meant for.
def patchTarget (deployment : Name) (h : History) : Option Label → Except ReleaseError Package
  | none => h.latest.elim (.error (.noReleases deployment)) .ok
  | some l =>
    match h.find l with
    | some p => .ok p
    | none =>
      if h = empty then .error (.noReleases deployment)
      else .error (.patchLabelNotFound l deployment)

def patch (deployment : Name) (h : History) (o : PatchOptions) :
    Except ReleaseError (Package × History) := do
  if ¬o.HasChanges then throw .nothingToPatch
  let version ← o.version.mapM fun text => (VersionRange.ofText text).mapError .ofVersion
  let _ ← o.rollout.mapM fun value => (Rollout.ofInt value).mapError .ofRollout
  let current ← h.patchTarget deployment o.label
  let rollout ← o.rollout.mapM fun value => (Rollout.forPatch current value).mapError .ofRollout
  let updated := { current with
    rollout := rollout.getD current.rollout
    version := version.getD current.version
    description := o.description <|> current.description
    disabled := o.disabled.getD current.disabled
    mandatory := o.mandatory.getD current.mandatory
  }
  let h ← (h.replace updated.label updated).mapError .ofHistory
  return (updated, h)

-- Copies the latest enabled release of another deployment.
def promote (h : History) (source : Name) (sourceHistory : History) (o : PromoteOptions)
    (uploadTime : Nat) : Except ReleaseError (Outcome × History) := do
  let promoted ← sourceHistory.latestEnabled.elim (.error (.nothingToPromote source)) .ok
  let version ← o.version.mapM fun text => (VersionRange.ofText text).mapError .ofVersion
  let c := { promoted.toCandidate with
    version := version.getD promoted.version
    uploadTime
    description := o.description <|> promoted.description
    disabled := o.disabled.getD promoted.disabled
    mandatory := o.mandatory.getD promoted.mandatory
    rollout := .full
    method := .promote
  }
  h.appendChecked c o.rollout o.allowDuplicate

-- The release that a rollback goes back to.
def rollbackTarget (deployment : Name) (h : History) (current : Package) :
    Option Label → Except ReleaseError Package
  | none => h.previous.elim (.error (.noPriorRelease deployment)) .ok
  | some l =>
    match h.find l with
    | none => .error (.rollbackLabelNotFound l deployment)
    | some p => if p.label = current.label then .error (.rollbackToCurrent l) else .ok p

def rollback (deployment : Name) (h : History) (target : Option Label) :
    Except ReleaseError (Package × History) := do
  let current ← h.latest.elim (.error (.nothingToRollBack deployment)) .ok
  let p ← h.rollbackTarget deployment current target
  (h.append { p.toCandidate with method := .rollback }).mapError .ofHistory

def clear (_ : History) : History :=
  empty

end History
end AirRelease
