import AirRelease.Bundle
import AirRelease.Registry
import AirRelease.Release
import AirRelease.Store.Format

namespace AirRelease

inductive Request
  | addApp (name : String)
  | listApps
  | renameApp (old new : String)
  | removeApp (name : String)
  | transferApp (name email : String)
  | addCollaborator (app email : String)
  | listCollaborators (app : String)
  | removeCollaborator (app email : String)
  | addDeployment (app name : String)
  | listDeployments (app : String)
  | renameDeployment (app old new : String)
  | removeDeployment (app name : String)
  | history (app deployment : String)
  | clearHistory (app deployment : String)
  | release (app deployment : String) (content : Except BundleError Bundle) (version : String)
    (options : ReleaseOptions)
  | patch (app deployment : String) (options : PatchOptions)
  | promote (app source target : String) (options : PromoteOptions)
  | rollback (app deployment : String) (target : Option Label)

structure AppSummary where
  name : Name
  owner : Option Email
  deployments : List Name
deriving DecidableEq

-- A deployment with its current release.
structure DeploymentSummary where
  name : Name
  key : AccessKey
  current : Option Package
deriving DecidableEq

inductive Reply
  | done
  | app (app : App)
  | apps (apps : List AppSummary)
  | collaborators (cs : Collaborators)
  | deployment (d : Deployment)
  | deployments (ds : List DeploymentSummary)
  | history (h : History)
  | outcome (o : Outcome)
  | package (p : Package)
deriving DecidableEq

def App.summary (app : App) : AppSummary :=
  ⟨app.name, app.collaborators.owner?, app.deployments.map (·.name)⟩

def AppSummary.toJson (app : AppSummary) : Json :=
  .ofFields [
    ("name", app.name.toJson),
    ("owner", app.owner.elim .null Email.toJson),
    ("deployments", .array (app.deployments.map Name.toJson))
  ]

def DeploymentSummary.toJson (d : DeploymentSummary) : Json :=
  .ofFields [
    ("name", d.name.toJson),
    ("key", d.key.toJson),
    ("package", d.current.elim .null Package.toJson)
  ]

end AirRelease
