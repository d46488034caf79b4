import AirRelease.History
import AirRelease.Name

namespace AirRelease

inductive ReleaseError
  | badVersion (text : String)
  | badRollout (value : Int)
  | identical (current : Label)
  | rolloutInProgress (current : Label)
  | noReleases (deployment : Name)
  | patchLabelNotFound (label : Label) (deployment : Name)
  | nothingToPatch
  | rolloutAlreadyFull
  | rolloutMustIncrease (current : Rollout)
  | nothingToPromote (source : Name)
  | nothingToRollBack (deployment : Name)
  | noPriorRelease (deployment : Name)
  | rollbackLabelNotFound (label : Label) (deployment : Name)
  | rollbackToCurrent (label : Label)
  | corruptHistory (label : Label)
deriving DecidableEq

namespace ReleaseError

def ofRollout : RolloutError → ReleaseError
  | .outOfRange value => .badRollout value
  | .inProgress label => .rolloutInProgress label
  | .alreadyFull => .rolloutAlreadyFull
  | .mustIncrease current => .rolloutMustIncrease current

-- A label that is looked up before it is replaced can only be missing from a damaged history.
def ofHistory : HistoryError → ReleaseError
  | .corrupt label | .notFound label => .corruptHistory label

def ofVersion (e : VersionRangeError) : ReleaseError :=
  .badVersion e.text

def message : ReleaseError → String
  | badVersion text => s!"invalid target binary version: {text}"
  | badRollout value => s!"invalid rollout: {value}"
  | identical current => s!"release is identical to current release {current.text}"
  | rolloutInProgress current => s!"rollout of {current.text} is still in progress"
  | noReleases deployment => s!"deployment {deployment.text} has no releases"
  | patchLabelNotFound label deployment | rollbackLabelNotFound label deployment =>
    s!"release {label.text} not found in deployment {deployment.text}"
  | nothingToPatch => "no properties specified to patch"
  | rolloutAlreadyFull => "cannot change rollout of a fully rolled out release"
  | rolloutMustIncrease current => s!"rollout must exceed current value {current.text}"
  | nothingToPromote source => s!"deployment {source.text} has no enabled releases to promote"
  | nothingToRollBack deployment => s!"deployment {deployment.text} has no releases to roll back"
  | noPriorRelease deployment =>
    s!"deployment {deployment.text} has no prior release to roll back to"
  | rollbackToCurrent label => s!"release {label.text} is already the current release"
  | corruptHistory label => s!"history corrupt at label {label.text}"

end ReleaseError
end AirRelease
