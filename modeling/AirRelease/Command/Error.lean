import AirRelease.Bundle
import AirRelease.Registry.Error
import AirRelease.Release.Error
import AirRelease.Store.Error

namespace AirRelease

inductive CommandError
  | registry (e : RegistryError)
  | release (e : ReleaseError)
  | name (text : String) (e : NameError)
  | flag (option value : String)
  | rollout (text : String)
  | bundle (e : BundleError)
  | lock (e : LockError)
  | store (e : StoreError)
deriving DecidableEq

namespace RegistryError

def userMessage : RegistryError → String
  | appNotFound name => s!"App \"{name}\" does not exist."
  | appConflict name => s!"An app named '{name.text}' already exists."
  | deploymentNotFound name => s!"Deployment \"{name}\" does not exist."
  | deploymentConflict name => s!"A deployment named '{name.text}' already exists."
  | collaboratorNotFound email app =>
    s!"The collaborator \"{email.text}\" does not exist for the \"{app.text}\" app."
  | collaboratorConflict email app =>
    s!"\"{email.text}\" is already a collaborator on the \"{app.text}\" app."
  | ownerRemoval app => s!"The owner of the \"{app.text}\" app cannot be removed as a collaborator."
  | notOwner app => s!"Only the owner of the \"{app.text}\" app can perform this operation."

end RegistryError

def badRolloutMessage (value : String) : String :=
  s!"Invalid rollout \"{value}\". Rollout must be an integer between 1 and 100 inclusive."

namespace ReleaseError

def userMessage : ReleaseError → String
  | badVersion text =>
    s!"\"{text}\" is not a valid target binary version. Please use a semver-compliant range, " ++
      "for example \"1.0.0\", \"*\" or \"^1.2.3\"."
  | badRollout value => badRolloutMessage (toString value)
  | identical current =>
    "The uploaded package was not released because it is identical to the contents of the " ++
      s!"current release \"{current.text}\"."
  | rolloutInProgress current =>
    s!"Release \"{current.text}\" is still rolling out. Please update it to 100% rollout or " ++
      "disable it before releasing a new package."
  | noReleases deployment => s!"Deployment \"{deployment.text}\" has no releases."
  | patchLabelNotFound label deployment | rollbackLabelNotFound label deployment =>
    s!"Release \"{label.text}\" does not exist in the \"{deployment.text}\" deployment."
  | nothingToPatch => "At least one property must be specified to patch a release."
  | rolloutAlreadyFull =>
    "Cannot update the rollout of a release that is already fully rolled out."
  | rolloutMustIncrease current =>
    s!"Rollout must be greater than the existing value of {current.text}."
  | nothingToPromote source =>
    s!"Cannot promote from the \"{source.text}\" deployment because it has no enabled releases."
  | nothingToRollBack deployment =>
    s!"Cannot roll back because the \"{deployment.text}\" deployment has no releases."
  | noPriorRelease deployment =>
    s!"Cannot roll back because the \"{deployment.text}\" deployment has no prior releases."
  | rollbackToCurrent label =>
    s!"Cannot roll back to \"{label.text}\" because it is already the latest release."
  | corruptHistory label =>
    s!"The release history is corrupt: \"{label.text}\" is not a valid label."

end ReleaseError

namespace StoreError

def userMessage (e : StoreError) : String :=
  s!"Failed to access stored data: {e.message}"

end StoreError

namespace BundleError

def userMessage : BundleError → String
  | notFound path => s!"The specified path \"{path.text}\" does not exist."
  | refused path =>
    "It is unnecessary to package releases in a .zip or binary file. Please specify the direct " ++
      s!"path to the update content's directory or file (\"{path.text}\")."
  | empty path => s!"The specified path \"{path.text}\" contains no update content."
  | e@(unreadable _ _) => s!"Failed to access stored data: {e.message}"

end BundleError

namespace LockError

def userMessage : LockError → String
  | busy (.deployment name _) =>
    s!"Deployment \"{name.text}\" is busy with another operation. Please try again."
  | busy (.registry _) => "The app registry is busy with another operation. Please try again."
  | store e => e.userMessage

end LockError

namespace CommandError

def message : CommandError → String
  | registry e => e.userMessage
  | release e => e.userMessage
  | name text e => s!"Invalid name \"{text}\": {e.message}."
  | flag option value =>
    s!"Invalid value \"{value}\" for \"--{option}\". Expected \"true\" or \"false\"."
  | rollout text => badRolloutMessage text
  | bundle e => e.userMessage
  | lock e => e.userMessage
  | store e => e.userMessage

end CommandError
end AirRelease
