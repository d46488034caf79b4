import AirRelease.Bundle

namespace AirRelease.Success

def appAdded (app : String) : String :=
  s!"Successfully added the \"{app}\" app, along with the following default deployments:"

def appRenamed (old new : String) : String :=
  s!"Successfully renamed the \"{old}\" app to \"{new}\"."

def appRemoved (app : String) : String :=
  s!"Successfully removed the \"{app}\" app."

def appTransferred (app email : String) : String :=
  s!"Successfully transferred the ownership of the \"{app}\" app to the account with email " ++
    s!"\"{email}\"."

def collaboratorAdded (email app : String) : String :=
  s!"Successfully added \"{email}\" as a collaborator to the \"{app}\" app."

def collaboratorRemoved (email app : String) : String :=
  s!"Successfully removed \"{email}\" as a collaborator from the \"{app}\" app."

def deploymentAdded (deployment key app : String) : String :=
  s!"Successfully added the \"{deployment}\" deployment with key \"{key}\" to the \"{app}\" app."

def deploymentRenamed (old new app : String) : String :=
  s!"Successfully renamed the \"{old}\" deployment to \"{new}\" for the \"{app}\" app."

def deploymentRemoved (deployment app : String) : String :=
  s!"Successfully removed the \"{deployment}\" deployment from the \"{app}\" app."

def historyCleared (deployment app : String) : String :=
  s!"Successfully cleared the release history associated with the \"{deployment}\" deployment " ++
    s!"from the \"{app}\" app."

def released (content : String) (kind : BundleKind) (deployment app : String) : String :=
  let noun := match kind with
    | .file => "file"
    | .directory => "directory"
  s!"Successfully released an update containing the \"{content}\" {noun} to the " ++
    s!"\"{deployment}\" deployment of the \"{app}\" app."

def duplicateSkipped (label deployment : String) : String :=
  s!"The update was not released because it is identical to \"{label}\", the current release of " ++
    s!"the \"{deployment}\" deployment."

def patched (label deployment app : String) : String :=
  s!"Successfully updated the \"{label}\" release of the \"{deployment}\" deployment of the " ++
    s!"\"{app}\" app."

def promoted (source target app : String) : String :=
  s!"Successfully promoted the \"{source}\" deployment of the \"{app}\" app to the " ++
    s!"\"{target}\" deployment."

def rolledBack (deployment app : String) : String :=
  s!"Successfully performed a rollback on the \"{deployment}\" deployment of the \"{app}\" app."

end AirRelease.Success
